import EffectLisp.Proofs.Datum.Grammar

/-!
# Derivation trees

A tree says which rules of the grammar a datum is derived by.  Its tokens, its
nesting and its value are functions of it, so the grammar can be stated without
looking at how tokens are read: what is read is what has the tokens of some trees
that are not nested beyond the limit.  The trees of a token sequence are unique,
also where two of them have one value, as a quote mark and the long form do.

The reader asks for a token only where there is one, so it never reports that it
expected another; nor does its bound on the number of steps run out.
-/

namespace EffectLisp.Datum

inductive Tree where
  | literal (text : String)
  | atom (spelling : String)
  | quoteMark (inner : Tree)
  | list (items : List Tree)

namespace Tree

mutual

def tokens : Tree → List Token
  | literal text => [.literal text]
  | atom spelling => [.atom spelling]
  | quoteMark inner => .quoteMark :: inner.tokens
  | list items => .opening :: (tokensOf items ++ [.closing])

def tokensOf : List Tree → List Token
  | [] => []
  | tree :: trees => tree.tokens ++ tokensOf trees

end

mutual

/-- How many lists and quote marks are within each other where they are most; the
innermost of them is inside one fewer. -/
def nesting : Tree → Nat
  | literal _ => 0
  | atom _ => 0
  | quoteMark inner => inner.nesting + 1
  | list items => nestingOf items + 1

def nestingOf : List Tree → Nat
  | [] => 0
  | tree :: trees => max tree.nesting (nestingOf trees)

end

mutual

def value : Tree → Value
  | literal text => .string text
  | atom spelling => ofAtom spelling
  | quoteMark inner => quoted inner.value
  | list items => .list (valuesOf items)

def valuesOf : List Tree → List Value
  | [] => []
  | tree :: trees => tree.value :: valuesOf trees

end

end Tree

open EffectLisp.Datum.Tree (tokensOf nestingOf valuesOf)

/-- The lexemes are a row of data, derived as the trees say. -/
structure DerivedBy (lexemes : List Lexeme) (trees : List Tree) : Prop where
  tokens : lexemes.map Lexeme.token = tokensOf trees
  nesting : nestingOf trees ≤ nestingLimit

mutual

/-- A derived datum has a tree. -/
theorem DerivesDatum.exists_tree
    {depth : Nat} {lexemes : List Lexeme} {v : Value}
    (derives : DerivesDatum depth lexemes v) (within : depth ≤ nestingLimit) :
    ∃ tree : Tree, lexemes.map Lexeme.token = tree.tokens ∧
      depth + tree.nesting ≤ nestingLimit ∧ v = tree.value := by
  cases derives with
  | literal _ offset text => exact ⟨.literal text, rfl, within, rfl⟩
  | atom _ offset spelling => exact ⟨.atom spelling, rfl, within, rfl⟩
  | quoteMark offset below inner =>
      obtain ⟨tree, tokens, nesting, rfl⟩ := inner.exists_tree below
      refine ⟨.quoteMark tree, ?_, ?_, rfl⟩
      · rw [List.map_cons, tokens]
        rfl
      · rw [Tree.nesting]
        omega
  | list offset close below inner =>
      obtain ⟨trees, tokens, nesting, rfl⟩ := inner.exists_trees below
      refine ⟨.list trees, ?_, ?_, rfl⟩
      · rw [List.map_cons, List.map_append, tokens]
        rfl
      · rw [Tree.nesting]
        omega

theorem DerivesItems.exists_trees
    {depth : Nat} {lexemes : List Lexeme} {vs : List Value}
    (derives : DerivesItems depth lexemes vs) (within : depth ≤ nestingLimit) :
    ∃ trees : List Tree, lexemes.map Lexeme.token = tokensOf trees ∧
      depth + nestingOf trees ≤ nestingLimit ∧ vs = valuesOf trees := by
  cases derives with
  | nil => exact ⟨[], rfl, within, rfl⟩
  | cons datum items =>
      obtain ⟨tree, tokens, nesting, rfl⟩ := datum.exists_tree within
      obtain ⟨trees, others, nestings, rfl⟩ := items.exists_trees within
      refine ⟨tree :: trees, ?_, ?_, rfl⟩
      · rw [List.map_append, tokens, others]
        rfl
      · rw [nestingOf]
        omega

end

mutual

/-- The tokens of a tree derive its value, wherever they stand in a text. -/
theorem Tree.derives
    (tree : Tree) {depth : Nat} (within : depth + tree.nesting ≤ nestingLimit) :
    DerivesDatum depth (tree.tokens.map (⟨·, 0⟩)) tree.value := by
  cases tree with
  | literal text => exact .literal depth 0 text
  | atom spelling => exact .atom depth 0 spelling
  | quoteMark inner =>
      rw [Tree.nesting] at within
      have derives := inner.derives (by omega : depth + 1 + inner.nesting ≤ nestingLimit)
      exact .quoteMark 0 (by omega) derives
  | list items =>
      rw [Tree.nesting] at within
      have derives := derives_tokensOf items
        (by omega : depth + 1 + nestingOf items ≤ nestingLimit)
      rw [Tree.tokens, List.map_cons, List.map_append]
      exact .list 0 0 (by omega) derives

theorem derives_tokensOf
    (trees : List Tree) {depth : Nat} (within : depth + nestingOf trees ≤ nestingLimit) :
    DerivesItems depth ((tokensOf trees).map (⟨·, 0⟩)) (valuesOf trees) := by
  cases trees with
  | nil => exact .nil depth
  | cons tree trees =>
      rw [nestingOf] at within
      rw [tokensOf, List.map_append]
      exact .cons (tree.derives (by omega)) (derives_tokensOf trees (by omega))

end

/-- A sequence is derived as some trees say if it has the tokens of those. -/
theorem derivesItems_iff
    {lexemes : List Lexeme} {vs : List Value} :
    DerivesItems 0 lexemes vs ↔ ∃ trees, DerivedBy lexemes trees ∧ vs = valuesOf trees := by
  constructor
  · intro derives
    obtain ⟨trees, tokens, nesting, same⟩ := derives.exists_trees (Nat.zero_le _)
    exact ⟨trees, ⟨tokens, by omega⟩, same⟩
  · rintro ⟨trees, ⟨tokens, nesting⟩, rfl⟩
    have derives := derives_tokensOf trees (by omega : 0 + nestingOf trees ≤ nestingLimit)
    apply derives.of_tokens (Nat.le_refl 0)
    rw [tokens, List.map_map]
    exact (List.map_id _).symm

theorem derivesDatum_iff
    {lexemes : List Lexeme} {v : Value} :
    DerivesDatum 0 lexemes v ↔ ∃ tree, DerivedBy lexemes [tree] ∧ v = tree.value := by
  constructor
  · intro derives
    obtain ⟨tree, tokens, nesting, same⟩ := derives.exists_tree (Nat.zero_le _)
    refine ⟨tree, ⟨?_, ?_⟩, same⟩
    · rw [tokens, tokensOf, tokensOf, List.append_nil]
    · rw [nestingOf, nestingOf]
      omega
  · rintro ⟨tree, ⟨tokens, nesting⟩, rfl⟩
    rw [nestingOf, nestingOf] at nesting
    rw [tokensOf, tokensOf, List.append_nil] at tokens
    have derives := tree.derives (by omega : 0 + tree.nesting ≤ nestingLimit)
    apply derives.of_tokens (Nat.le_refl 0)
    rw [tokens, List.map_map]
    exact (List.map_id _).symm

/-- No further datum begins where these tokens do. -/
def EndsItems (rest : List Token) : Prop :=
  ∀ token tail, rest = token :: tail → token = .closing

theorem endsItems_closing (rest : List Token) : EndsItems (.closing :: rest) := by
  rintro token tail ⟨⟩
  rfl

theorem Tree.not_endsItems (tree : Tree) (rest : List Token) :
    ¬EndsItems (tree.tokens ++ rest) := by
  intro ends
  cases tree with
  | literal text => cases ends _ _ rfl
  | atom spelling => cases ends _ _ rfl
  | quoteMark inner => cases ends _ _ rfl
  | list items => cases ends _ _ rfl

mutual

/-- The tokens of a tree tell the tree and where it ends. -/
theorem Tree.tokens_append_inj
    {tree other : Tree} {rest rest' : List Token}
    (same : tree.tokens ++ rest = other.tokens ++ rest') : tree = other ∧ rest = rest' := by
  match tree, other with
  | .literal text, .literal _ =>
      cases same
      exact ⟨rfl, rfl⟩
  | .atom spelling, .atom _ =>
      cases same
      exact ⟨rfl, rfl⟩
  | .quoteMark inner, .quoteMark other =>
      obtain ⟨rfl, rest⟩ := Tree.tokens_append_inj (List.cons.inj same).2
      exact ⟨rfl, rest⟩
  | .list items, .list others =>
      rw [Tree.tokens, Tree.tokens, List.cons_append, List.cons_append,
        List.append_assoc, List.append_assoc] at same
      obtain ⟨rfl, rest⟩ := tokensOf_append_inj (List.cons.inj same).2
        (endsItems_closing _) (endsItems_closing _)
      exact ⟨rfl, (List.cons.inj rest).2⟩
  | .literal _, .atom _ | .literal _, .quoteMark _ | .literal _, .list _ => cases same
  | .atom _, .literal _ | .atom _, .quoteMark _ | .atom _, .list _ => cases same
  | .quoteMark _, .literal _ | .quoteMark _, .atom _ | .quoteMark _, .list _ => cases same
  | .list _, .literal _ | .list _, .atom _ | .list _, .quoteMark _ => cases same

theorem tokensOf_append_inj
    {trees others : List Tree} {rest rest' : List Token}
    (same : tokensOf trees ++ rest = tokensOf others ++ rest')
    (ends : EndsItems rest) (ends' : EndsItems rest') : trees = others ∧ rest = rest' := by
  match trees, others with
  | [], [] => exact ⟨rfl, same⟩
  | [], other :: others =>
      rw [tokensOf, tokensOf, List.nil_append, List.append_assoc] at same
      rw [same] at ends
      exact absurd ends (other.not_endsItems _)
  | tree :: trees, [] =>
      rw [tokensOf, tokensOf, List.nil_append, List.append_assoc] at same
      rw [← same] at ends'
      exact absurd ends' (tree.not_endsItems _)
  | tree :: trees, other :: others =>
      rw [tokensOf, tokensOf, List.append_assoc, List.append_assoc] at same
      obtain ⟨rfl, later⟩ := Tree.tokens_append_inj same
      obtain ⟨rfl, last⟩ := tokensOf_append_inj later ends ends'
      exact ⟨rfl, last⟩

end

/-- A token sequence is derived in one way only. -/
theorem DerivedBy.unique
    {lexemes : List Lexeme} {trees others : List Tree}
    (first : DerivedBy lexemes trees) (second : DerivedBy lexemes others) :
    trees = others := by
  have same : tokensOf trees ++ [] = tokensOf others ++ [] := by
    rw [← first.tokens, ← second.tokens]
  exact (tokensOf_append_inj same nofun nofun).1

theorem length_lt_of_datum?
    {steps depth : Nat} {lexemes rest : List Lexeme} {v : Value}
    (read : datum? steps depth lexemes = .ok (v, rest)) : rest.length < lexemes.length := by
  obtain ⟨front, rfl, derives⟩ := DerivesDatum.of_datum? read
  have positive := List.length_pos_iff.mpr derives.ne_nil
  rw [List.length_append]
  omega

theorem descend_ne_unexpectedEnd (depth offset : Nat) :
    descend depth offset ≠ .error .unexpectedEnd := by
  intro failed
  unfold descend at failed
  split at failed
  · cases failed
  · cases failed

mutual

theorem datum?_ne_unexpectedEnd
    {steps depth : Nat} {lexemes : List Lexeme} (nonempty : lexemes ≠ [])
    (enough : 2 * lexemes.length ≤ steps + 1) :
    datum? steps depth lexemes ≠ .error .unexpectedEnd := by
  intro failed
  match steps, lexemes with
  | _, [] => exact nonempty rfl
  | 0, lexeme :: tail =>
      rw [List.length_cons] at enough
      omega
  | steps + 1, ⟨token, offset⟩ :: tail =>
      rw [List.length_cons] at enough
      cases token with
      | opening =>
          rcases bind_eq_error failed with refused | ⟨_, _, inside⟩
          · exact descend_ne_unexpectedEnd depth offset refused
          · exact items?_ne_unexpectedEnd (by omega) inside
      | closing => cases failed
      | quoteMark =>
          simp only [datum?] at failed
          split at failed
          · cases failed
          · next follows =>
              rcases bind_eq_error failed with refused | ⟨_, _, inside⟩
              · exact descend_ne_unexpectedEnd depth offset refused
              · rcases bind_eq_error inside with inner | ⟨_, _, result⟩
                · exact datum?_ne_unexpectedEnd follows (by omega) inner
                · cases result
      | literal text => cases failed
      | atom spelling => cases failed

theorem items?_ne_unexpectedEnd
    {steps depth start : Nat} {done : List Value} {lexemes : List Lexeme}
    (enough : 2 * lexemes.length ≤ steps) :
    items? steps depth start done lexemes ≠ .error .unexpectedEnd := by
  intro failed
  match steps, lexemes with
  | 0, [] => cases failed
  | _ + 1, [] => cases failed
  | 0, lexeme :: tail =>
      rw [List.length_cons] at enough
      omega
  | steps + 1, ⟨token, offset⟩ :: tail =>
      by_cases closes : token = .closing
      · subst closes
        cases failed
      · rw [items?_cons closes] at failed
        split at failed
        · next read =>
            cases failed
            exact datum?_ne_unexpectedEnd (List.cons_ne_nil _ _) (by omega) read
        · next w after read =>
            have shorter := length_lt_of_datum? read
            exact items?_ne_unexpectedEnd (by omega) failed

end

theorem allFrom_ne_unexpectedEnd
    {steps : Nat} {done : List Value} {lexemes : List Lexeme}
    (enough : 2 * lexemes.length ≤ steps) :
    allFrom steps done lexemes ≠ .error .unexpectedEnd := by
  intro failed
  induction steps generalizing done lexemes with
  | zero =>
      cases lexemes with
      | nil => cases failed
      | cons lexeme tail =>
          rw [List.length_cons] at enough
          omega
  | succ steps induction =>
      cases lexemes with
      | nil => cases failed
      | cons lexeme tail =>
          rw [allFrom] at failed
          split at failed
          · next read =>
              cases failed
              exact datum?_ne_unexpectedEnd (List.cons_ne_nil _ _) (by omega) read
          · next w after read =>
              have shorter := length_lt_of_datum? read
              exact induction (by omega) failed

theorem parseAll_ne_unexpectedEnd (lexemes : List Lexeme) :
    parseAll lexemes ≠ .error .unexpectedEnd :=
  allFrom_ne_unexpectedEnd (Nat.le_refl _)

theorem parseOne_ne_unexpectedEnd (lexemes : List Lexeme) :
    parseOne lexemes ≠ .error .unexpectedEnd := by
  intro failed
  unfold parseOne at failed
  split at failed
  · cases failed
  · next nonempty =>
      rcases bind_eq_error failed with first | ⟨⟨v, rest⟩, _, result⟩
      · exact datum?_ne_unexpectedEnd nonempty (Nat.le_succ _) first
      · cases rest with
        | nil => cases result
        | cons next rest => cases result

/-- Exactly the sequences that some trees derive are read, as the values of the trees,
and those are the only ones.  No sequence is refused for want of a token. -/
theorem reads_iff_derivedBy (lexemes : List Lexeme) :
    (∀ vs, parseAll lexemes = .ok vs ↔
      ∃ trees, DerivedBy lexemes trees ∧ vs = valuesOf trees) ∧
    (∀ v, parseOne lexemes = .ok v ↔
      ∃ tree, DerivedBy lexemes [tree] ∧ v = tree.value) ∧
    (∀ trees others, DerivedBy lexemes trees → DerivedBy lexemes others →
      trees = others) ∧
    parseAll lexemes ≠ .error .unexpectedEnd ∧
    parseOne lexemes ≠ .error .unexpectedEnd := by
  refine ⟨?_, ?_, ?_, parseAll_ne_unexpectedEnd lexemes, parseOne_ne_unexpectedEnd lexemes⟩
  · intro vs
    exact parseAll_eq_ok_iff.trans derivesItems_iff
  · intro v
    exact parseOne_eq_ok_iff.trans derivesDatum_iff
  · intro trees others first second
    exact first.unique second

/-- A list of an atom and a quoted string. -/
theorem reads_iff_derivedBy_list :
    let lexemes : List Lexeme :=
      [⟨.opening, 0⟩, ⟨.atom "a", 1⟩, ⟨.quoteMark, 3⟩, ⟨.literal "b", 4⟩, ⟨.closing, 7⟩]
    let tree : Tree := .list [.atom "a", .quoteMark (.literal "b")]
    DerivedBy lexemes [tree] ∧ parseAll lexemes = .ok [tree.value] ∧
      parseOne lexemes = .ok tree.value ∧
      ∀ trees, DerivedBy lexemes trees → trees = [tree] := by
  intro lexemes tree
  have derived : DerivedBy lexemes [tree] := ⟨by decide, by decide⟩
  obtain ⟨all, one, unique, _, _⟩ := reads_iff_derivedBy lexemes
  refine ⟨derived, (all _).mpr ⟨_, derived, rfl⟩, (one _).mpr ⟨_, derived, rfl⟩, ?_⟩
  intro trees other
  exact unique trees [tree] other derived

end EffectLisp.Datum
