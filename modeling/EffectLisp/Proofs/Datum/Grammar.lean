import EffectLisp.Datum.Codec
import EffectLisp.Proofs.Result

/-!
# The grammar of data

    datum := literal | atom | quoteMark datum | opening datum* closing

A token sequence derives a value at a depth, the number of lists and quote marks
around it; a list or a quote mark is legal only below the nesting limit.  The
reader accepts exactly what is derived, and gives the value that is derived.
-/

namespace EffectLisp.Datum

mutual

/-- The lexemes are one datum, inside so many lists and quote marks. -/
inductive DerivesDatum : Nat → List Lexeme → Value → Prop where
  | literal (depth offset : Nat) (text : String) :
      DerivesDatum depth [⟨.literal text, offset⟩] (.string text)
  | atom (depth offset : Nat) (spelling : String) :
      DerivesDatum depth [⟨.atom spelling, offset⟩] (ofAtom spelling)
  | quoteMark {depth : Nat} (offset : Nat) {lexemes : List Lexeme} {v : Value} :
      depth < nestingLimit →
      DerivesDatum (depth + 1) lexemes v →
      DerivesDatum depth (⟨.quoteMark, offset⟩ :: lexemes) (quoted v)
  | list {depth : Nat} (offset close : Nat) {lexemes : List Lexeme}
      {items : List Value} :
      depth < nestingLimit →
      DerivesItems (depth + 1) lexemes items →
      DerivesDatum depth (⟨.opening, offset⟩ :: (lexemes ++ [⟨.closing, close⟩]))
        (.list items)

/-- The lexemes are data in a row, inside so many lists and quote marks. -/
inductive DerivesItems : Nat → List Lexeme → List Value → Prop where
  | nil (depth : Nat) : DerivesItems depth [] []
  | cons {depth : Nat} {first rest : List Lexeme} {v : Value} {vs : List Value} :
      DerivesDatum depth first v →
      DerivesItems depth rest vs →
      DerivesItems depth (first ++ rest) (v :: vs)

end

theorem descend_of_lt
    {depth : Nat} (below : depth < nestingLimit) (offset : Nat) :
    descend depth offset = .ok () :=
  if_neg (Nat.not_le.mpr below)

/-- A datum begins with a token that closes no list. -/
theorem DerivesDatum.head
    {depth : Nat} {lexemes : List Lexeme} {v : Value}
    (derives : DerivesDatum depth lexemes v) :
    ∃ token offset tail,
      lexemes = ⟨token, offset⟩ :: tail ∧ token ≠ .closing := by
  cases derives with
  | literal _ offset text => exact ⟨_, _, _, rfl, nofun⟩
  | atom _ offset spelling => exact ⟨_, _, _, rfl, nofun⟩
  | quoteMark offset below inner => exact ⟨_, _, _, rfl, nofun⟩
  | list offset close below items => exact ⟨_, _, _, rfl, nofun⟩

theorem DerivesDatum.ne_nil
    {depth : Nat} {lexemes : List Lexeme} {v : Value}
    (derives : DerivesDatum depth lexemes v) : lexemes ≠ [] := by
  obtain ⟨_, _, _, rfl, _⟩ := derives.head
  simp

theorem items?_cons
    {token : Token} (opens : token ≠ .closing) (steps depth start offset : Nat)
    (done : List Value) (rest : List Lexeme) :
    items? (steps + 1) depth start done (⟨token, offset⟩ :: rest) =
      match datum? steps depth (⟨token, offset⟩ :: rest) with
      | .error error => .error error
      | .ok (v, rest) => items? steps depth start (v :: done) rest := by
  cases token with
  | closing => exact absurd rfl opens
  | _ => rfl

mutual

/-- A derived datum is read, whatever follows it. -/
theorem DerivesDatum.datum?_eq
    {depth : Nat} {lexemes : List Lexeme} {v : Value}
    (derives : DerivesDatum depth lexemes v)
    (rest : List Lexeme) (steps : Nat) (enough : 2 * lexemes.length ≤ steps + 1) :
    datum? steps depth (lexemes ++ rest) = .ok (v, rest) := by
  have positive := List.length_pos_iff.mpr derives.ne_nil
  obtain ⟨steps, rfl⟩ : ∃ fewer, steps = fewer + 1 := ⟨steps - 1, by omega⟩
  cases derives with
  | literal => rfl
  | atom => rfl
  | @quoteMark _ offset lexemes v below inner =>
      rw [List.length_cons] at enough
      have read := inner.datum?_eq rest steps (by omega)
      have follows : lexemes ++ rest ≠ [] := by simp [inner.ne_nil]
      simp [datum?, follows, descend_of_lt below, read, bind, Except.bind, pure,
        Except.pure]
  | @list _ offset close lexemes items below inner =>
      simp only [List.length_cons, List.length_append, List.length_nil] at enough
      have read := inner.items?_eq offset close [] rest steps (by omega)
      simp [datum?, descend_of_lt below, read, bind, Except.bind]

/-- Derived items are read up to the parenthesis that closes them. -/
theorem DerivesItems.items?_eq
    {depth : Nat} {lexemes : List Lexeme} {items : List Value}
    (derives : DerivesItems depth lexemes items)
    (start close : Nat) (done : List Value) (rest : List Lexeme) (steps : Nat)
    (enough : 2 * lexemes.length ≤ steps) :
    items? steps depth start done (lexemes ++ ⟨.closing, close⟩ :: rest) =
      .ok (.list (done.reverse ++ items), rest) := by
  cases derives with
  | nil => simp [items?]
  | @cons _ first after v vs datum items =>
      rw [List.length_append] at enough
      have positive := List.length_pos_iff.mpr datum.ne_nil
      obtain ⟨steps, rfl⟩ : ∃ fewer, steps = fewer + 1 := ⟨steps - 1, by omega⟩
      have readFirst := datum.datum?_eq (after ++ ⟨.closing, close⟩ :: rest) steps
        (by omega)
      have readRest := items.items?_eq start close (v :: done) rest steps (by omega)
      obtain ⟨token, offset, tail, rfl, opens⟩ := datum.head
      rw [List.append_assoc, List.cons_append, items?_cons opens]
      rw [List.cons_append] at readFirst
      simp [readFirst, readRest]

end

theorem DerivesItems.allFrom_eq
    {lexemes : List Lexeme} {vs : List Value} (derives : DerivesItems 0 lexemes vs)
    (done : List Value) (steps : Nat) (enough : 2 * lexemes.length ≤ steps) :
    allFrom steps done lexemes = .ok (done.reverse ++ vs) := by
  cases derives with
  | nil => simp [allFrom]
  | @cons _ first after v vs datum items =>
      rw [List.length_append] at enough
      have positive := List.length_pos_iff.mpr datum.ne_nil
      obtain ⟨steps, rfl⟩ : ∃ fewer, steps = fewer + 1 := ⟨steps - 1, by omega⟩
      have readFirst := datum.datum?_eq after steps (by omega)
      have readRest := items.allFrom_eq (v :: done) steps (by omega)
      obtain ⟨token, offset, tail, rfl, _⟩ := datum.head
      rw [List.cons_append] at readFirst ⊢
      simp [allFrom, readFirst, readRest]

theorem descend_eq_ok
    {depth offset : Nat} {entered : Unit} (opened : descend depth offset = .ok entered) :
    depth < nestingLimit := by
  unfold descend at opened
  split at opened
  · cases opened
  · omega

mutual

/-- What is read as a datum is derived. -/
theorem DerivesDatum.of_datum?
    {steps depth : Nat} {lexemes rest : List Lexeme} {v : Value}
    (read : datum? steps depth lexemes = .ok (v, rest)) :
    ∃ front, lexemes = front ++ rest ∧ DerivesDatum depth front v := by
  match steps, lexemes with
  | 0, _ => cases read
  | _ + 1, [] => cases read
  | steps + 1, ⟨token, offset⟩ :: tail =>
      cases token with
      | opening =>
          obtain ⟨_, opened, inner⟩ := bind_eq_ok read
          obtain ⟨front, close, items, rfl, rfl, derives⟩ := DerivesItems.of_items? inner
          exact ⟨_, by simp, .list offset close (descend_eq_ok opened) derives⟩
      | closing => cases read
      | quoteMark =>
          simp only [datum?] at read
          split at read
          · cases read
          · obtain ⟨_, opened, inner⟩ := bind_eq_ok read
            obtain ⟨⟨w, after⟩, readInner, result⟩ := bind_eq_ok inner
            cases result
            obtain ⟨front, rfl, derives⟩ := DerivesDatum.of_datum? readInner
            exact ⟨_, rfl, .quoteMark offset (descend_eq_ok opened) derives⟩
      | literal text =>
          cases read
          exact ⟨[_], rfl, .literal depth offset text⟩
      | atom spelling =>
          cases read
          exact ⟨[_], rfl, .atom depth offset spelling⟩

/-- What is read as the items of a list is derived, up to its parenthesis. -/
theorem DerivesItems.of_items?
    {steps depth start : Nat} {done : List Value} {lexemes rest : List Lexeme}
    {v : Value} (read : items? steps depth start done lexemes = .ok (v, rest)) :
    ∃ front close items,
      lexemes = front ++ ⟨.closing, close⟩ :: rest ∧
        v = .list (done.reverse ++ items) ∧ DerivesItems depth front items := by
  match steps, lexemes with
  | 0, [] => cases read
  | _ + 1, [] => cases read
  | steps, ⟨token, offset⟩ :: tail =>
      by_cases closes : token = .closing
      · subst closes
        have result : items? steps depth start done (⟨.closing, offset⟩ :: tail) =
            .ok (.list done.reverse, tail) := by
          cases steps <;> rfl
        rw [result] at read
        cases read
        exact ⟨[], offset, [], by simp, by simp, .nil depth⟩
      · match steps with
        | 0 => cases token <;> first | exact absurd rfl closes | cases read
        | steps + 1 =>
            rw [items?_cons closes] at read
            split at read
            · cases read
            · next w after readFirst =>
                obtain ⟨first, whole, datum⟩ := DerivesDatum.of_datum? readFirst
                obtain ⟨front, close, items, rfl, rfl, derives⟩ :=
                  DerivesItems.of_items? read
                exact ⟨first ++ front, close, w :: items, by simp [whole], by simp,
                  .cons datum derives⟩

end

theorem DerivesItems.of_allFrom
    {steps : Nat} {done : List Value} {lexemes : List Lexeme} {vs : List Value}
    (read : allFrom steps done lexemes = .ok vs) :
    ∃ items, vs = done.reverse ++ items ∧ DerivesItems 0 lexemes items := by
  induction steps generalizing done lexemes with
  | zero =>
      cases lexemes with
      | nil =>
          cases read
          exact ⟨[], by simp, .nil 0⟩
      | cons lexeme tail => cases read
  | succ steps induction =>
      cases lexemes with
      | nil =>
          cases read
          exact ⟨[], by simp, .nil 0⟩
      | cons lexeme tail =>
          rw [allFrom] at read
          split at read
          · cases read
          · next w after readFirst =>
              obtain ⟨first, whole, datum⟩ := DerivesDatum.of_datum? readFirst
              obtain ⟨items, rfl, derives⟩ := induction read
              rw [whole]
              exact ⟨w :: items, by simp, .cons datum derives⟩

/-- Exactly the derived sequences are read as a whole. -/
theorem parseAll_eq_ok_iff
    {lexemes : List Lexeme} {vs : List Value} :
    parseAll lexemes = .ok vs ↔ DerivesItems 0 lexemes vs := by
  constructor
  · intro read
    obtain ⟨items, rfl, derives⟩ := DerivesItems.of_allFrom read
    exact derives
  · intro derives
    exact derives.allFrom_eq [] _ (Nat.le_refl _)

/-- Exactly the derived sequences are read as one datum. -/
theorem parseOne_eq_ok_iff
    {lexemes : List Lexeme} {v : Value} :
    parseOne lexemes = .ok v ↔ DerivesDatum 0 lexemes v := by
  constructor
  · intro read
    unfold parseOne at read
    split at read
    · cases read
    · obtain ⟨⟨w, rest⟩, readFirst, result⟩ := bind_eq_ok read
      obtain ⟨front, rfl, derives⟩ := DerivesDatum.of_datum? readFirst
      cases rest with
      | nil =>
          cases result
          rwa [List.append_nil]
      | cons next rest => cases result
  · intro derives
    have read := derives.datum?_eq [] (2 * lexemes.length) (Nat.le_succ _)
    rw [List.append_nil] at read
    simp [parseOne, derives.ne_nil, read, bind, Except.bind, pure, Except.pure]

/-- A text is read as one datum if its lexemes derive the datum. -/
theorem read_eq_ok_iff {text : String} {v : Value} :
    read text = .ok v ↔
      ∃ lexemes, Token.lex text = .ok lexemes ∧ DerivesDatum 0 lexemes v := by
  constructor
  · intro given
    obtain ⟨lexemes, lexed, parsed⟩ := bind_eq_ok given
    exact ⟨lexemes, mapError_eq_ok_iff.mp lexed,
      parseOne_eq_ok_iff.mp (mapError_eq_ok_iff.mp parsed)⟩
  · rintro ⟨lexemes, lexed, derives⟩
    rw [read, tokens, lexed]
    exact mapError_eq_ok_iff.mpr (parseOne_eq_ok_iff.mpr derives)

theorem readAll_eq_ok_iff {text : String} {vs : List Value} :
    readAll text = .ok vs ↔
      ∃ lexemes, Token.lex text = .ok lexemes ∧ DerivesItems 0 lexemes vs := by
  constructor
  · intro given
    obtain ⟨lexemes, lexed, parsed⟩ := bind_eq_ok given
    exact ⟨lexemes, mapError_eq_ok_iff.mp lexed,
      parseAll_eq_ok_iff.mp (mapError_eq_ok_iff.mp parsed)⟩
  · rintro ⟨lexemes, lexed, derives⟩
    rw [readAll, tokens, lexed]
    exact mapError_eq_ok_iff.mpr (parseAll_eq_ok_iff.mpr derives)

mutual

/-- A datum is derived by its tokens alone, and so it is inside fewer lists. -/
theorem DerivesDatum.of_tokens
    {depth lower : Nat} {lexemes others : List Lexeme} {v : Value}
    (derives : DerivesDatum depth lexemes v) (shallower : lower ≤ depth)
    (same : others.map Lexeme.token = lexemes.map Lexeme.token) :
    DerivesDatum lower others v := by
  cases derives with
  | literal _ offset text =>
      obtain ⟨⟨token, place⟩, rfl, rfl⟩ := List.map_eq_singleton_iff.mp same
      exact .literal lower place text
  | atom _ offset spelling =>
      obtain ⟨⟨token, place⟩, rfl, rfl⟩ := List.map_eq_singleton_iff.mp same
      exact .atom lower place spelling
  | quoteMark offset below inner =>
      rw [List.map_cons] at same
      obtain ⟨⟨token, place⟩, tail, rfl, rfl, sameTail⟩ :=
        List.map_eq_cons_iff.mp same
      exact .quoteMark place (by omega) (inner.of_tokens (by omega) sameTail)
  | list offset close below inner =>
      rw [List.map_cons, List.map_append, List.map_singleton] at same
      obtain ⟨⟨token, place⟩, tail, rfl, rfl, sameTail⟩ :=
        List.map_eq_cons_iff.mp same
      obtain ⟨front, back, rfl, sameFront, sameBack⟩ :=
        List.map_eq_append_iff.mp sameTail
      obtain ⟨⟨token, last⟩, rfl, rfl⟩ := List.map_eq_singleton_iff.mp sameBack
      exact .list place last (by omega) (inner.of_tokens (by omega) sameFront)

theorem DerivesItems.of_tokens
    {depth lower : Nat} {lexemes others : List Lexeme} {vs : List Value}
    (derives : DerivesItems depth lexemes vs) (shallower : lower ≤ depth)
    (same : others.map Lexeme.token = lexemes.map Lexeme.token) :
    DerivesItems lower others vs := by
  cases derives with
  | nil =>
      rw [List.map_nil] at same
      cases List.map_eq_nil_iff.mp same
      exact .nil lower
  | cons datum items =>
      rw [List.map_append] at same
      obtain ⟨front, back, rfl, sameFront, sameBack⟩ :=
        List.map_eq_append_iff.mp same
      exact .cons (datum.of_tokens shallower sameFront)
        (items.of_tokens shallower sameBack)

end

end EffectLisp.Datum
