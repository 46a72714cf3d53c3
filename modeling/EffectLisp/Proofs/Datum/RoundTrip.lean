import EffectLisp.Datum.Codec
import EffectLisp.Proofs.Datum.Atom
import EffectLisp.Proofs.Datum.Writable
import EffectLisp.Proofs.Value.Equality

/-!
# Reading what is written

What is written for a value is lexed into a sequence that derives the value, at
the depth at which it was written.  Whatever is shown is therefore read back.
-/

namespace EffectLisp.Datum

open Token (IsAtom AtomEnds Spells byteCount isDelimiter lexAt)

/-- In front of the rest the text is lexed into the lexemes. -/
def LexedInto (offset : Nat) (text rest : List Char) (lexemes : List Lexeme) : Prop :=
  lexAt offset (text ++ rest) =
    (lexAt (offset + byteCount text) rest).map (lexemes ++ ·)

namespace LexedInto

theorem append
    {offset : Nat} {first second rest : List Char} {front back : List Lexeme}
    (lexedFirst : LexedInto offset first (second ++ rest) front)
    (lexedSecond : LexedInto (offset + byteCount first) second rest back) :
    LexedInto offset (first ++ second) rest (front ++ back) := by
  unfold LexedInto at *
  rw [List.append_assoc, lexedFirst, lexedSecond, Token.byteCount_append,
    ← Nat.add_assoc]
  cases lexAt (offset + byteCount first + byteCount second) rest with
  | error error => rfl
  | ok lexemes => simp [Except.map]

theorem of_spells
    {token : Token} {spelling rest : List Char}
    (spells : Spells token spelling rest) (offset : Nat) :
    LexedInto offset spelling rest [⟨token, offset⟩] :=
  spells.lexAt_eq offset

theorem space (offset : Nat) (rest : List Char) : LexedInto offset [' '] rest [] := by
  have skipped := Token.lexAt_separator (c := ' ') rfl offset rest
  rw [LexedInto, List.singleton_append, skipped, Token.byteCount_cons,
    Token.byteCount_nil, Nat.add_zero]
  cases lexAt (offset + ' '.utf8Size) rest <;> rfl

end LexedInto

/-- Text of which the pieces are lexed into a derivation of the value. -/
def ReadsAs (depth offset : Nat) (text rest : List Char) (v : Value) : Prop :=
  ∃ lexemes, DerivesDatum depth lexemes v ∧ LexedInto offset text rest lexemes

theorem readsAs_string (depth offset : Nat) (text : String) (rest : List Char) :
    ReadsAs depth offset (Text.quote text.toList) rest (.string text) := by
  have spells : Spells (.literal (String.ofList text.toList))
      (Text.quote text.toList) rest :=
    .literal (Text.untilQuote_encode _ _) (Text.decode?_encode _)
  rw [String.ofList_toList] at spells
  exact ⟨_, .literal depth offset text, .of_spells spells offset⟩

theorem readsAs_atom
    {spelling rest : List Char} (atom : IsAtom spelling) (ends : AtomEnds rest)
    (depth offset : Nat) :
    ReadsAs depth offset spelling rest (ofAtom (String.ofList spelling)) :=
  ⟨_, .atom depth offset _, .of_spells (.atom atom ends) offset⟩

theorem atomEnds_closing (rest : List Char) : AtomEnds (')' :: rest) :=
  Text.stopsAt_cons (by decide) rest

theorem atomEnds_space (rest : List Char) : AtomEnds (' ' :: rest) :=
  Text.stopsAt_cons (by decide) rest

mutual

/-- What is written for a value reads as the value. -/
theorem readsAs_of_write
    {depth : Nat} {v : Value} {text : List Char} (written : write depth v = .ok text)
    {rest : List Char} (ends : AtomEnds rest) (offset : Nat) :
    ReadsAs depth offset text rest v := by
  cases v with
  | string content =>
      cases written
      exact readsAs_string depth offset content rest
  | number x =>
      cases written
      have reads := readsAs_atom (isAtom_number x) ends depth offset
      rwa [ofAtom_number] at reads
  | bool b =>
      cases written
      have reads := readsAs_atom (isAtom_bool b) ends depth offset
      rwa [ofAtom_bool] at reads
  | symbol name =>
      simp only [write] at written
      split at written
      · next readable =>
          cases written
          obtain ⟨atom, symbol⟩ := isReadableSymbol_iff.mp readable
          have reads := readsAs_atom atom ends depth offset
          rwa [String.ofList_toList, symbol] at reads
      · cases written
  | callable c => cases written
  | list items =>
      simp only [write] at written
      split at written
      · cases written
      · next below =>
          obtain ⟨inside, writtenItems, result⟩ := bind_eq_ok written
          cases result
          obtain ⟨lexemes, close, derives, lexed⟩ :=
            readsAs_of_writeItems writtenItems rest (offset + byteCount ['('])
          have opened := LexedInto.of_spells (.opening (inside ++ rest)) offset
          exact ⟨_, .list offset close (by omega) derives, opened.append lexed⟩

/-- What is written for the items of a list reads as the items, and then comes
the parenthesis that closes the list. -/
theorem readsAs_of_writeItems
    {depth : Nat} {items : List Value} {text : List Char}
    (written : writeItems depth items = .ok text) (rest : List Char) (offset : Nat) :
    ∃ lexemes close,
      DerivesItems depth lexemes items ∧
        LexedInto offset text rest (lexemes ++ [⟨.closing, close⟩]) := by
  match items with
  | [] =>
      cases written
      exact ⟨[], offset, .nil depth, .of_spells (.closing rest) offset⟩
  | [item] =>
      obtain ⟨chars, writtenItem, result⟩ := bind_eq_ok written
      cases result
      obtain ⟨lexemes, derives, lexed⟩ :=
        readsAs_of_write writtenItem (atomEnds_closing rest) offset
      have closed := LexedInto.of_spells (.closing rest) (offset + byteCount chars)
      have items := DerivesItems.cons derives (.nil depth)
      rw [List.append_nil] at items
      exact ⟨lexemes, _, items, lexed.append closed⟩
  | item :: other :: items =>
      obtain ⟨chars, writtenItem, later⟩ := bind_eq_ok written
      obtain ⟨others, writtenOthers, result⟩ := bind_eq_ok later
      cases result
      obtain ⟨lexemes, derives, lexed⟩ :=
        readsAs_of_write writtenItem (atomEnds_space (others ++ rest)) offset
      obtain ⟨lexemesOthers, close, derivesOthers, lexedOthers⟩ :=
        readsAs_of_writeItems writtenOthers rest
          (offset + byteCount chars + byteCount [' '])
      have space := LexedInto.space (offset + byteCount chars) (others ++ rest)
      have separated := space.append lexedOthers
      refine ⟨lexemes ++ lexemesOthers, close, .cons derives derivesOthers, ?_⟩
      rw [List.append_assoc]
      exact lexed.append separated

end

/-- What is shown for a value is read back as the value. -/
theorem read_of_showValue
    {v : Value} {text : String} (shown : showValue v = .ok text) :
    read text = .ok v := by
  obtain ⟨chars, written, result⟩ := bind_eq_ok shown
  cases result
  obtain ⟨lexemes, derives, lexed⟩ := readsAs_of_write written (Text.stopsAt_nil _) 0
  have lexes : Token.lex (String.ofList chars) = .ok lexemes := by
    rw [LexedInto, List.append_nil, Token.lexAt_nil] at lexed
    rw [Token.lex_eq_lexAt, String.toList_ofList, lexed]
    simp [Except.map]
  exact read_eq_ok_iff.mpr ⟨lexemes, lexes, derives⟩

/-- Exactly the writable values are shown, and each is read back from its text: the
result is the value, and equal to it for programs too. -/
theorem exists_read_of_shown (v : Value) :
    ((∃ text, showValue v = .ok text) ↔ Writable 0 v) ∧
      ∀ text, showValue v = .ok text →
        ∃ w, read text = .ok w ∧ w = v ∧ w.same v = true := by
  refine ⟨exists_showValue_iff, ?_⟩
  intro text shown
  exact ⟨v, read_of_showValue shown, rfl, v.same_self⟩

/-- A string with every escape and with delimiters inside, a number, and lists. -/
theorem exists_read_of_shown_list :
    showValue (.list [.symbol "say-hi", .string "a\"b\\;(\n\t\r", .number (-0.1),
        .list [], .bool false]) = .ok "(say-hi \"a\\\"b\\\\;(\\n\\t\\r\" -0.1 () #f)" ∧
      ∃ w, read "(say-hi \"a\\\"b\\\\;(\\n\\t\\r\" -0.1 () #f)" = .ok w ∧
        w = .list [.symbol "say-hi", .string "a\"b\\;(\n\t\r", .number (-0.1),
          .list [], .bool false] ∧
        w.same (.list [.symbol "say-hi", .string "a\"b\\;(\n\t\r", .number (-0.1),
          .list [], .bool false]) = true :=
  have shown := eq_ok_of_toOption (by decide +kernel)
  ⟨shown, (exists_read_of_shown _).2 _ shown⟩

end EffectLisp.Datum
