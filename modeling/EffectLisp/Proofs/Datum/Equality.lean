import EffectLisp.Proofs.Datum.RoundTrip
import EffectLisp.Proofs.Token.Layout

/-!
# Texts of equal values

Equality and the text of a value agree.  Equal values are both shown or both refused, and
where they are shown their texts are the same token by token, except that a zero may have
its sign in one and not in the other.  Texts that differ in nothing else are read as equal
values, so values that are shown are equal if and only if their texts differ in no more.
-/

namespace EffectLisp.Datum

open Token (IsAtom AtomEnds Spells byteCount lexAt)
open Value (Equal EqualItems)

/-- What the two zeros are written as. -/
def zeroSpellings : List String := ["0", "-0"]

/-- The texts are the same token by token and space by space, except that the zeros of one
may have other signs than those of the other. -/
inductive SameButZeroSigns : List Char → List Char → Prop where
  | nil : SameButZeroSigns [] []
  | space {first second : List Char} :
      SameButZeroSigns first second →
      SameButZeroSigns (' ' :: first) (' ' :: second)
  | token {token : Token} {spelling first second : List Char} :
      token.SpelledAs spelling first →
      token.SpelledAs spelling second →
      SameButZeroSigns first second →
      SameButZeroSigns (spelling ++ first) (spelling ++ second)
  | zero {zero other : String} {first second : List Char} :
      zero ∈ zeroSpellings →
      other ∈ zeroSpellings →
      (Token.atom zero).SpelledAs zero.toList first →
      (Token.atom other).SpelledAs other.toList second →
      SameButZeroSigns first second →
      SameButZeroSigns (zero.toList ++ first) (other.toList ++ second)

section Writing

/-- In front of texts that differ only in signs of zeros the two do not differ in more. -/
def WrittenAlike (text other : List Char) : Prop :=
  ∀ first second, AtomEnds first → AtomEnds second → SameButZeroSigns first second →
    SameButZeroSigns (text ++ first) (other ++ second)

theorem writtenAlike_of_spells
    {token : Token} {spelling : List Char}
    (spells : ∀ rest, AtomEnds rest → Spells token spelling rest) :
    WrittenAlike spelling spelling := by
  intro first second firstEnds secondEnds rest
  exact .token (Token.spells_iff.mp (spells first firstEnds))
    (Token.spells_iff.mp (spells second secondEnds)) rest

theorem writtenAlike_atom {spelling : List Char} (atom : IsAtom spelling) :
    WrittenAlike spelling spelling :=
  writtenAlike_of_spells fun _ ends => .atom atom ends

theorem writtenAlike_string (text : String) :
    WrittenAlike (Text.quote text.toList) (Text.quote text.toList) :=
  writtenAlike_of_spells fun _ _ =>
    .literal (Text.untilQuote_encode _ _) (Text.decode?_encode _)

/-- A double of no magnitude is written as one of the two zeros. -/
theorem chars_of_zero {x : Float} (zero : Number.magnitude x = 0) :
    String.ofList (Number.chars x) ∈ zeroSpellings := by
  have number : ¬x.isNaN = true := by
    rw [Number.isNaN_iff, zero]
    decide
  have finite : ¬Number.magnitude x = Number.infinityBits := by
    rw [zero]
    decide
  rw [Number.chars, if_neg number, if_neg finite, if_pos zero]
  cases Number.isNegative x <;> decide

theorem writtenAlike_number {x y : Float} (same : sameNumber x y = true) :
    WrittenAlike (Number.chars x) (Number.chars y) := by
  rcases (sameNumber_iff x y).mp same with rfl | ⟨zero, alsoZero⟩
  · exact writtenAlike_atom (isAtom_number x)
  · intro first second firstEnds secondEnds rest
    have here := Token.spells_iff.mp (Spells.atom (isAtom_number x) firstEnds)
    have there := Token.spells_iff.mp (Spells.atom (isAtom_number y) secondEnds)
    have written := SameButZeroSigns.zero (chars_of_zero zero) (chars_of_zero alsoZero)
      (by simpa using here) (by simpa using there) rest
    simpa using written

mutual

/-- Where a value is written, an equal one is written alike. -/
theorem exists_write_of_equal
    {depth : Nat} {v w : Value} (equal : Equal v w) {text : List Char}
    (written : write depth v = .ok text) :
    ∃ other, write depth w = .ok other ∧ WrittenAlike text other := by
  cases equal with
  | string content =>
      cases written
      exact ⟨_, rfl, writtenAlike_string content⟩
  | number same =>
      cases written
      exact ⟨_, rfl, writtenAlike_number same⟩
  | bool b =>
      cases written
      exact ⟨_, rfl, writtenAlike_atom (isAtom_bool b)⟩
  | symbol name =>
      cases Writable.of_write written with
      | symbol _ readable =>
          rw [write, if_pos readable] at written ⊢
          cases written
          exact ⟨_, rfl, writtenAlike_atom (isReadableSymbol_iff.mp readable).1⟩
  | callable => cases written
  | @list items others equal =>
      simp only [write] at written
      split at written
      · cases written
      · next below =>
          obtain ⟨inside, writtenItems, result⟩ := bind_eq_ok written
          cases result
          obtain ⟨other, otherItems, alike⟩ := exists_writeItems_of_equal equal writtenItems
          refine ⟨_, write_list (by omega) otherItems, ?_⟩
          intro first second _ _ rest
          exact .token (Token.spells_iff.mp (.opening _)) (Token.spells_iff.mp (.opening _))
            (alike first second rest)

theorem exists_writeItems_of_equal
    {depth : Nat} {items others : List Value} (equal : EqualItems items others)
    {text : List Char} (written : writeItems depth items = .ok text) :
    ∃ other, writeItems depth others = .ok other ∧
      ∀ first second, SameButZeroSigns first second →
        SameButZeroSigns (text ++ first) (other ++ second) := by
  have closed {first second : List Char} (rest : SameButZeroSigns first second) :
      SameButZeroSigns (')' :: first) (')' :: second) :=
    .token (Token.spells_iff.mp (.closing first)) (Token.spells_iff.mp (.closing second)) rest
  cases equal with
  | nil =>
      cases written
      exact ⟨_, rfl, fun first second rest => closed rest⟩
  | @cons item other items others equal later =>
      cases later with
      | nil =>
          obtain ⟨chars, writtenItem, result⟩ := bind_eq_ok written
          cases result
          obtain ⟨otherChars, otherItem, alike⟩ := exists_write_of_equal equal writtenItem
          refine ⟨_, by rw [writeItems, otherItem]; rfl, ?_⟩
          intro first second rest
          rw [List.append_assoc, List.append_assoc]
          exact alike _ _ (atomEnds_closing first) (atomEnds_closing second) (closed rest)
      | @cons next otherNext items others equalNext later =>
          obtain ⟨chars, writtenItem, goesOn⟩ := bind_eq_ok written
          obtain ⟨inside, writtenItems, result⟩ := bind_eq_ok goesOn
          cases result
          obtain ⟨otherChars, otherItem, alike⟩ := exists_write_of_equal equal writtenItem
          obtain ⟨otherInside, otherItems, alikeItems⟩ :=
            exists_writeItems_of_equal (.cons equalNext later) writtenItems
          refine ⟨_, by rw [writeItems, otherItem, otherItems]; rfl, ?_⟩
          intro first second rest
          rw [List.append_assoc, List.append_assoc]
          exact alike _ _ (atomEnds_space _) (atomEnds_space _)
            (.space (alikeItems first second rest))

end

end Writing

section Reading

/-- The lexemes have the same token, or both have a zero. -/
def Counterparts (lexeme other : Lexeme) : Prop :=
  lexeme.token = other.token ∨
    ∃ zero ∈ zeroSpellings, ∃ twin ∈ zeroSpellings,
      lexeme.token = .atom zero ∧ other.token = .atom twin

/-- Texts that differ only in signs of zeros have counterparts for lexemes. -/
theorem SameButZeroSigns.exists_lexAt
    {first second : List Char} (alike : SameButZeroSigns first second) (offset place : Nat) :
    ∃ lexemes others,
      lexAt offset first = .ok lexemes ∧ lexAt place second = .ok others ∧
        List.Forall₂ Counterparts lexemes others := by
  induction alike generalizing offset place with
  | nil => exact ⟨[], [], Token.lexAt_nil _, Token.lexAt_nil _, .nil⟩
  | space _ induction =>
      rw [Token.lexAt_separator rfl, Token.lexAt_separator rfl]
      exact induction _ _
  | @token token spelling first second here there _ induction =>
      obtain ⟨lexemes, others, lexed, otherLexed, alike⟩ :=
        induction (offset + byteCount spelling) (place + byteCount spelling)
      rw [(Token.spells_iff.mpr here).lexAt_eq, (Token.spells_iff.mpr there).lexAt_eq, lexed,
        otherLexed]
      exact ⟨_, _, rfl, rfl, .cons (.inl rfl) alike⟩
  | @zero zero twin first second isZero isTwin here there _ induction =>
      obtain ⟨lexemes, others, lexed, otherLexed, alike⟩ :=
        induction (offset + byteCount zero.toList) (place + byteCount twin.toList)
      rw [(Token.spells_iff.mpr here).lexAt_eq, (Token.spells_iff.mpr there).lexAt_eq, lexed,
        otherLexed]
      exact ⟨_, _, rfl, rfl, .cons (.inr ⟨zero, isZero, twin, isTwin, rfl, rfl⟩) alike⟩

/-- A zero is read as a number of no magnitude, whatever its sign. -/
theorem ofAtom_of_mem_zeroSpellings {spelling : String} (zero : spelling ∈ zeroSpellings) :
    ∃ x, ofAtom spelling = .number x ∧ Number.magnitude x = 0 := by
  simp only [zeroSpellings, List.mem_cons, List.not_mem_nil, or_false] at zero
  rcases zero with rfl | rfl
  · exact ⟨Number.ofMagnitude false 0, rfl, rfl⟩
  · exact ⟨Number.ofMagnitude true 0, rfl, rfl⟩

theorem forall₂_append
    {α β : Type} {R : α → β → Prop} {front back : List α} {others : List β}
    (alike : List.Forall₂ R (front ++ back) others) :
    ∃ before after,
      others = before ++ after ∧ List.Forall₂ R front before ∧ List.Forall₂ R back after := by
  refine ⟨others.take front.length, others.drop front.length,
    (List.take_append_drop _ _).symm, ?_, ?_⟩
  · simpa using List.forall₂_take front.length alike
  · simpa using List.forall₂_drop front.length alike

theorem Counterparts.eq_of_not_atom
    {token : Token} {offset : Nat} {other : Lexeme}
    (alike : Counterparts ⟨token, offset⟩ other) (noAtom : ∀ spelling, token ≠ .atom spelling) :
    ∃ place, other = ⟨token, place⟩ := by
  obtain ⟨twin, place⟩ := other
  rcases alike with rfl | ⟨zero, -, -, -, isAtom, -⟩
  · exact ⟨place, rfl⟩
  · exact absurd isAtom (noAtom zero)

mutual

/-- Counterparts of the lexemes of a datum are those of an equal one. -/
theorem DerivesDatum.exists_equal
    {depth : Nat} {lexemes others : List Lexeme} {v : Value}
    (derives : DerivesDatum depth lexemes v)
    (alike : List.Forall₂ Counterparts lexemes others) :
    ∃ w, DerivesDatum depth others w ∧ Equal v w := by
  cases derives with
  | literal _ offset text =>
      obtain ⟨other, rest, here, none, rfl⟩ := List.forall₂_cons_left_iff.mp alike
      cases none
      obtain ⟨place, rfl⟩ := here.eq_of_not_atom nofun
      exact ⟨_, .literal depth place text, .string text⟩
  | atom _ offset spelling =>
      obtain ⟨⟨token, place⟩, rest, here, none, rfl⟩ := List.forall₂_cons_left_iff.mp alike
      cases none
      rcases here with rfl | ⟨zero, isZero, twin, isTwin, same, rfl⟩
      · exact ⟨_, .atom depth place spelling, Value.beq_iff_equal.mp (Value.same_self _)⟩
      · cases same
        obtain ⟨x, read, zeroX⟩ := ofAtom_of_mem_zeroSpellings isZero
        obtain ⟨y, readTwin, zeroY⟩ := ofAtom_of_mem_zeroSpellings isTwin
        refine ⟨_, .atom depth place twin, ?_⟩
        rw [read, readTwin]
        exact .number ((sameNumber_iff x y).mpr (.inr ⟨zeroX, zeroY⟩))
  | quoteMark offset below inner =>
      obtain ⟨other, rest, here, inside, rfl⟩ := List.forall₂_cons_left_iff.mp alike
      obtain ⟨place, rfl⟩ := here.eq_of_not_atom nofun
      obtain ⟨w, derivesInner, equal⟩ := inner.exists_equal inside
      exact ⟨_, .quoteMark place below derivesInner,
        .list (.cons (.symbol "quote") (.cons equal .nil))⟩
  | list offset close below inner =>
      obtain ⟨other, rest, here, later, rfl⟩ := List.forall₂_cons_left_iff.mp alike
      obtain ⟨place, rfl⟩ := here.eq_of_not_atom nofun
      obtain ⟨inside, after, rfl, alikeItems, last⟩ := forall₂_append later
      obtain ⟨other, rest, there, none, rfl⟩ := List.forall₂_cons_left_iff.mp last
      cases none
      obtain ⟨otherClose, rfl⟩ := there.eq_of_not_atom nofun
      obtain ⟨ws, derivesInner, equal⟩ := inner.exists_equal alikeItems
      exact ⟨_, .list place otherClose below derivesInner, .list equal⟩

theorem DerivesItems.exists_equal
    {depth : Nat} {lexemes others : List Lexeme} {vs : List Value}
    (derives : DerivesItems depth lexemes vs)
    (alike : List.Forall₂ Counterparts lexemes others) :
    ∃ ws, DerivesItems depth others ws ∧ EqualItems vs ws := by
  cases derives with
  | nil =>
      cases alike
      exact ⟨[], .nil depth, .nil⟩
  | cons datum items =>
      obtain ⟨front, back, rfl, alikeFirst, alikeLater⟩ := forall₂_append alike
      obtain ⟨w, derivesFirst, equal⟩ := datum.exists_equal alikeFirst
      obtain ⟨ws, derivesLater, equalLater⟩ := items.exists_equal alikeLater
      exact ⟨w :: ws, .cons derivesFirst derivesLater, .cons equal equalLater⟩

end

/-- Texts that differ only in signs of zeros are read as equal values. -/
theorem exists_read_of_sameButZeroSigns
    {text other : String} (alike : SameButZeroSigns text.toList other.toList) {v : Value}
    (result : read text = .ok v) : ∃ w, read other = .ok w ∧ Equal v w := by
  obtain ⟨lexemes, lexed, derives⟩ := read_eq_ok_iff.mp result
  obtain ⟨own, others, lexedOwn, lexedOther, counterparts⟩ := alike.exists_lexAt 0 0
  rw [Token.lex_eq_lexAt, lexedOwn] at lexed
  cases lexed
  obtain ⟨w, derivesOther, equal⟩ := derives.exists_equal counterparts
  exact ⟨w, read_eq_ok_iff.mpr ⟨others, lexedOther, derivesOther⟩, equal⟩

end Reading

section Showing

variable {v w : Value}

theorem exists_showValue_of_equal
    (equal : Equal v w) {text : String} (shown : showValue v = .ok text) :
    ∃ other, showValue w = .ok other ∧ SameButZeroSigns text.toList other.toList := by
  obtain ⟨chars, written, result⟩ := bind_eq_ok shown
  cases result
  obtain ⟨others, otherWritten, alike⟩ := exists_write_of_equal equal written
  refine ⟨String.ofList others, by rw [showValue, otherWritten]; rfl, ?_⟩
  have ended := alike [] [] (Text.stopsAt_nil _) (Text.stopsAt_nil _) .nil
  simpa using ended

/-- Values that are shown are equal if and only if their texts differ in nothing but signs
of zeros. -/
theorem equal_iff_sameButZeroSigns
    {first second : String} (shown : showValue v = .ok first)
    (otherShown : showValue w = .ok second) :
    Equal v w ↔ SameButZeroSigns first.toList second.toList := by
  constructor
  · intro equal
    obtain ⟨other, found, alike⟩ := exists_showValue_of_equal equal shown
    rw [otherShown] at found
    cases found
    exact alike
  · intro alike
    obtain ⟨u, readOther, equal⟩ :=
      exists_read_of_sameButZeroSigns alike (read_of_showValue shown)
    rw [read_of_showValue otherShown] at readOther
    cases readOther
    exact equal

end Showing

/-- Equality of values is an equivalence, in which primitives go by their names.  Values of
one text are equal.  Equal values are both shown or both refused, and values that are shown
are equal if and only if their texts differ in nothing but the signs of zeros. -/
theorem equal_as_shown :
    (Equivalence fun v w : Value => (v == w) = true) ∧
    (∀ p q : Primitive,
      (Value.callable (.primitive p) == .callable (.primitive q)) = true ↔ p.name = q.name) ∧
    ∀ v w : Value,
      (∀ text, showValue v = .ok text → showValue w = .ok text → (v == w) = true) ∧
      ((v == w) = true →
        ((∃ text, showValue v = .ok text) ↔ ∃ text, showValue w = .ok text)) ∧
      ∀ first second, showValue v = .ok first → showValue w = .ok second →
        ((v == w) = true ↔ SameButZeroSigns first.toList second.toList) := by
  refine ⟨Value.equivalence_beq, Callable.same_primitive_iff (V := Value), ?_⟩
  intro v w
  refine ⟨?_, ?_, ?_⟩
  · intro text shown otherShown
    have same := read_of_showValue shown
    rw [read_of_showValue otherShown] at same
    cases same
    exact Value.same_self v
  · intro same
    have equal := Value.beq_iff_equal.mp same
    constructor
    · rintro ⟨text, shown⟩
      obtain ⟨other, otherShown, -⟩ := exists_showValue_of_equal equal shown
      exact ⟨other, otherShown⟩
    · rintro ⟨text, shown⟩
      obtain ⟨other, otherShown, -⟩ := exists_showValue_of_equal equal.symm shown
      exact ⟨other, otherShown⟩
  · intro first second shown otherShown
    rw [Value.beq_iff_equal]
    exact equal_iff_sameButZeroSigns shown otherShown

/-- The two zeros in lists, next to a string that looks like one of them, and what is no
number. -/
theorem equal_as_shown_zeros :
    let v : Value := .list [.number 0, .list [.string "-0", .number (0 / 0)]]
    let w : Value := .list [.number (-0), .list [.string "-0", .number (0 / 0)]]
    showValue v = .ok "(0 (\"-0\" +nan.0))" ∧ showValue w = .ok "(-0 (\"-0\" +nan.0))" ∧
      (v == v) = true ∧ (v == w) = true ∧ (∃ text, showValue w = .ok text) ∧
      SameButZeroSigns "(0 (\"-0\" +nan.0))".toList "(-0 (\"-0\" +nan.0))".toList := by
  intro v w
  have shown : showValue v = .ok "(0 (\"-0\" +nan.0))" :=
    eq_ok_of_toOption (by decide +kernel)
  have otherShown : showValue w = .ok "(-0 (\"-0\" +nan.0))" :=
    eq_ok_of_toOption (by decide +kernel)
  have same : (v == w) = true := by decide +kernel
  obtain ⟨-, -, agree⟩ := equal_as_shown
  obtain ⟨-, alsoShown, texts⟩ := agree v w
  exact ⟨shown, otherShown, (agree v v).1 _ shown shown, same, (alsoShown same).mp ⟨_, shown⟩,
    (texts _ _ shown otherShown).mp same⟩

end EffectLisp.Datum
