import EffectLisp.Proofs.Datum.RoundTrip
import EffectLisp.Proofs.Token.Shift

/-!
# Writing what is read

Whatever is read can be shown: the depth of a derivation bounds the nesting of
its value, and every atom of a text spells a readable symbol or no symbol at all.
What is shown is the same for every text of the value, so it is a canonical one.
-/

namespace EffectLisp.Datum

open Token (IsAtom Spells byteCount lexAt)

/-- Lexemes as the lexer finds them. -/
def WellSpelled (lexemes : List Lexeme) : Prop :=
  ∀ lexeme ∈ lexemes, lexeme.token.WellSpelled

theorem writable_ofAtom
    {spelling : String} (atom : IsAtom spelling.toList) (depth : Nat) :
    Writable depth (ofAtom spelling) := by
  rcases ofAtom_cases spelling with ⟨b, spelled⟩ | ⟨x, spelled⟩ | symbol
  · rw [spelled]
    exact .bool depth b
  · rw [spelled]
    exact .number depth x
  · rw [symbol]
    exact .symbol depth (isReadableSymbol_iff.mpr ⟨atom, symbol⟩)

theorem isReadableSymbol_quote : isReadableSymbol "quote" = true := by
  decide

theorem writable_quoted
    {depth : Nat} (below : depth < nestingLimit) {v : Value}
    (writable : Writable (depth + 1) v) : Writable depth (quoted v) := by
  have symbol : Writable (depth + 1) (.symbol "quote") :=
    .symbol _ isReadableSymbol_quote
  exact .list below (by simp [symbol, writable])

/-- A quoted value is written in the long form. -/
theorem write_quoted
    {depth : Nat} (below : depth < nestingLimit) {v : Value} {text : List Char}
    (written : write (depth + 1) v = .ok text) :
    write depth (quoted v) = .ok ("(quote ".toList ++ text ++ [')']) := by
  have items : writeItems (depth + 1) [.symbol "quote", v] =
      .ok ("quote ".toList ++ text ++ [')']) := by
    simp [writeItems, write, isReadableSymbol_quote, written, bind, Except.bind,
      pure, Except.pure]
  exact write_list below items

mutual

/-- What is derived can be written at the same depth. -/
theorem DerivesDatum.writable
    {depth : Nat} {lexemes : List Lexeme} {v : Value}
    (derives : DerivesDatum depth lexemes v) (spelled : WellSpelled lexemes) :
    Writable depth v := by
  cases derives with
  | literal _ offset text => exact .string depth text
  | atom _ offset spelling =>
      exact writable_ofAtom (spelled ⟨.atom spelling, offset⟩ (by simp)) depth
  | quoteMark offset below inner =>
      have inside := inner.writable fun lexeme member => spelled lexeme (by simp [member])
      exact writable_quoted below inside
  | list offset close below inner =>
      have each := inner.forall_writable fun lexeme member =>
        spelled lexeme (by simp [member])
      exact .list below each

theorem DerivesItems.forall_writable
    {depth : Nat} {lexemes : List Lexeme} {items : List Value}
    (derives : DerivesItems depth lexemes items) (spelled : WellSpelled lexemes) :
    ∀ v ∈ items, Writable depth v := by
  cases derives with
  | nil => simp
  | cons datum items =>
      have first := datum.writable fun lexeme member => spelled lexeme (by simp [member])
      have others := items.forall_writable fun lexeme member =>
        spelled lexeme (by simp [member])
      exact List.forall_mem_cons.mpr ⟨first, others⟩

end

mutual

/-- With fewer lists around it a value is written in the same way. -/
theorem write_of_write_succ
    {depth : Nat} {v : Value} {text : List Char}
    (written : write (depth + 1) v = .ok text) : write depth v = .ok text := by
  cases v with
  | list items =>
      simp only [write] at written
      split at written
      · cases written
      · next below =>
          obtain ⟨inside, writtenItems, result⟩ := bind_eq_ok written
          cases result
          exact write_list (by omega) (writeItems_of_writeItems_succ writtenItems)
  | symbol name => exact written
  | callable c => cases written
  | _ => cases written; rfl

theorem writeItems_of_writeItems_succ
    {depth : Nat} {items : List Value} {text : List Char}
    (written : writeItems (depth + 1) items = .ok text) :
    writeItems depth items = .ok text := by
  match items with
  | [] => exact written
  | [item] =>
      obtain ⟨chars, writtenItem, result⟩ := bind_eq_ok written
      rw [writeItems, write_of_write_succ writtenItem]
      exact result
  | item :: other :: items =>
      obtain ⟨chars, writtenItem, later⟩ := bind_eq_ok written
      obtain ⟨others, writtenOthers, result⟩ := bind_eq_ok later
      rw [writeItems, write_of_write_succ writtenItem,
        writeItems_of_writeItems_succ writtenOthers]
      exact result

end

theorem showValue_of_write
    {v : Value} {text : List Char} (written : write 0 v = .ok text) :
    showValue v = .ok (String.ofList text) := by
  rw [showValue, written]
  rfl

/-- The value has a text that it is shown as and that is read as the value. -/
def HasCanonicalText (v : Value) : Prop :=
  ∃ text w,
    showValue v = .ok text ∧ read text = .ok w ∧
      w = v ∧ w.same v = true ∧ showValue w = .ok text

theorem hasCanonicalText_of_writable
    {v : Value} (writable : Writable 0 v) : HasCanonicalText v := by
  obtain ⟨text, shown⟩ := exists_showValue_iff.mpr writable
  exact ⟨text, v, shown, read_of_showValue shown, rfl, v.same_self, shown⟩

/-- Exactly the writable values are read from some text. -/
theorem exists_read_iff {v : Value} : (∃ text, read text = .ok v) ↔ Writable 0 v := by
  constructor
  · intro given
    obtain ⟨text, result⟩ := given
    obtain ⟨lexemes, lexed, derives⟩ := read_eq_ok_iff.mp result
    exact derives.writable (Token.wellSpelled_of_lex lexed)
  · intro writable
    obtain ⟨text, shown⟩ := exists_showValue_iff.mpr writable
    exact ⟨text, read_of_showValue shown⟩

/-- Every datum of a text can be shown by itself. -/
theorem writable_of_readAll
    {text : String} {vs : List Value} (result : readAll text = .ok vs) :
    ∀ v ∈ vs, Writable 0 v := by
  obtain ⟨lexemes, lexed, derives⟩ := readAll_eq_ok_iff.mp result
  exact derives.forall_writable (Token.wellSpelled_of_lex lexed)

/-- A quote mark in front of a text quotes its datum, which is one level deeper. -/
theorem derives_of_read_quoteMark
    {text : String} {v : Value} (result : read ("'" ++ text) = .ok v) :
    ∃ u lexemes own,
      v = quoted u ∧ DerivesDatum 1 lexemes u ∧
        Token.lex text = .ok own ∧ lexemes = own.map (Lexeme.shift 1) := by
  obtain ⟨lexemes, lexed, derives⟩ := read_eq_ok_iff.mp result
  have first := (Spells.quoteMark text.toList).lexAt_eq 0
  rw [Token.lex_eq_lexAt, String.toList_append] at lexed
  replace lexed := first.symm.trans lexed
  cases later : lexAt (0 + byteCount ['\'']) text.toList with
  | error error =>
      rw [later] at lexed
      cases lexed
  | ok others =>
      rw [later] at lexed
      cases lexed
      obtain ⟨own, lexedOwn, shifted⟩ := Token.lex_of_lexAt later
      cases derives with
      | quoteMark offset below inner =>
          exact ⟨_, others, own, rfl, inner, lexedOwn, shifted⟩

/-- A text with a quote mark in front is shown in the long form, around what is
shown for the text without it. -/
theorem showValue_of_read_quoteMark
    {text : String} {v : Value} (result : read ("'" ++ text) = .ok v) :
    ∃ u inside,
      v = quoted u ∧ read text = .ok u ∧ showValue u = .ok inside ∧
        showValue v = .ok ("(quote " ++ inside ++ ")") := by
  obtain ⟨u, lexemes, own, rfl, derives, lexed, rfl⟩ :=
    derives_of_read_quoteMark result
  have alone : DerivesDatum 0 own u :=
    derives.of_tokens (Nat.zero_le 1) (by simp)
  have within : DerivesDatum 1 own u :=
    derives.of_tokens (Nat.le_refl 1) (by simp)
  have writable := within.writable (Token.wellSpelled_of_lex lexed)
  obtain ⟨chars, written⟩ := writable.exists_write
  have shown := showValue_of_write (write_quoted (by decide) written)
  rw [String.ofList_append, String.ofList_append] at shown
  exact ⟨u, String.ofList chars, rfl, read_eq_ok_iff.mpr ⟨own, lexed, alone⟩,
    showValue_of_write (write_of_write_succ written), shown⟩

/-- Whatever is read, alone or among others, can be shown, and its text is
canonical.  A quote mark is shown in the long form. -/
theorem hasCanonicalText_of_read (text : String) :
    (∀ v, read text = .ok v → HasCanonicalText v) ∧
      (∀ vs, readAll text = .ok vs → ∀ v ∈ vs, HasCanonicalText v) ∧
      (∀ v, read ("'" ++ text) = .ok v →
        ∃ u inside,
          v = quoted u ∧ read text = .ok u ∧ showValue u = .ok inside ∧
            showValue v = .ok ("(quote " ++ inside ++ ")")) := by
  refine ⟨?_, ?_, fun v => showValue_of_read_quoteMark⟩
  · intro v result
    exact hasCanonicalText_of_writable (exists_read_iff.mp ⟨text, result⟩)
  · intro vs result v member
    exact hasCanonicalText_of_writable (writable_of_readAll result v member)

/-- A quoted string and a comment, two data and a comment, and a string quoted twice. -/
theorem hasCanonicalText_of_read_comment :
    HasCanonicalText (quoted (.string "b;")) ∧
      (∀ v ∈ [Value.list [quoted (.string "b;")], .symbol "c"], HasCanonicalText v) ∧
      ∃ u inside,
        quoted (quoted (.string "b;")) = quoted u ∧ read "'\"b;\" ; c" = .ok u ∧
          showValue u = .ok inside ∧
          showValue (quoted (quoted (.string "b;"))) =
            .ok ("(quote " ++ inside ++ ")") := by
  have one : Token.lex "'\"b;\" ; c" =
      .ok [⟨.quoteMark, 0⟩, ⟨.literal "b;", 1⟩] :=
    eq_ok_of_toOption (by decide +kernel)
  have both : Token.lex "('\"b;\") c ; d" =
      .ok [⟨.opening, 0⟩, ⟨.quoteMark, 1⟩, ⟨.literal "b;", 2⟩, ⟨.closing, 6⟩,
        ⟨.atom "c", 8⟩] :=
    eq_ok_of_toOption (by decide +kernel)
  have marked : Token.lex ("'" ++ "'\"b;\" ; c") =
      .ok [⟨.quoteMark, 0⟩, ⟨.quoteMark, 1⟩, ⟨.literal "b;", 2⟩] :=
    eq_ok_of_toOption (by decide +kernel)
  exact ⟨(hasCanonicalText_of_read _).1 _
      (read_eq_ok_iff.mpr ⟨_, one, parseOne_eq_ok_iff.mp rfl⟩),
    (hasCanonicalText_of_read _).2.1 _
      (readAll_eq_ok_iff.mpr ⟨_, both, parseAll_eq_ok_iff.mp rfl⟩),
    (hasCanonicalText_of_read _).2.2 _
      (read_eq_ok_iff.mpr ⟨_, marked, parseOne_eq_ok_iff.mp rfl⟩)⟩

end EffectLisp.Datum
