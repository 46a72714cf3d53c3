import EffectLisp.Proofs.Repl.Balance
import EffectLisp.Proofs.Token.LineFeed

/-!
# Where a text is divided at the end of a line

A line feed stands in a gap or in a string.  Where the balance of what is before it is
outside of strings, it stands in a gap, and the text is laid out as the lines up to it
and then as those after it.
-/

namespace EffectLisp.Repl

open Token (Gap Layout byteCount)

namespace Balance

/-- The next character belongs to a string. -/
def InString (balance : Balance) : Prop :=
  balance.region = .string ∨ balance.region = .escaped

/-- A literal is a string up to its last quote. -/
theorem inString_scan_unescapes
    {front back text : List Char} (unescapes : Text.Unescapes (front ++ back) text)
    (depth : Int) : (scan ⟨depth, .string⟩ front).InString := by
  generalize whole : front ++ back = inside at unescapes
  induction unescapes generalizing front with
  | nil =>
      obtain ⟨rfl, -⟩ := List.append_eq_nil_iff.mp whole
      exact .inl rfl
  | @plain c _ _ noQuote noBackslash _ induction =>
      cases front with
      | nil => exact .inl rfl
      | cons first front =>
          obtain ⟨rfl, within⟩ := List.cons.inj whole
          have unchanged : step ⟨depth, .string⟩ first = ⟨depth, .string⟩ := by
            simp [step, noQuote, noBackslash]
          rw [scan_cons, unchanged]
          exact induction within
  | pair _ _ induction =>
      cases front with
      | nil => exact .inl rfl
      | cons first front =>
          obtain ⟨rfl, after⟩ := List.cons.inj whole
          cases front with
          | nil => exact .inr rfl
          | cons letter front =>
              obtain ⟨rfl, within⟩ := List.cons.inj after
              have inner := induction within
              exact inner

/-- Only a literal has a line feed in its spelling, and in front of that it is a string. -/
theorem inString_scan_spelling
    {token : Token} {front back rest : List Char}
    (spelled : token.SpelledAs (front ++ '\n' :: back) rest) (depth : Int) :
    (scan ⟨depth, .code⟩ front).InString := by
  cases token with
  | literal text =>
      obtain ⟨inside, whole, unescapes⟩ := spelled
      cases front with
      | nil =>
          obtain ⟨lineFeed, -⟩ := List.cons.inj whole
          exact absurd lineFeed (by decide)
      | cons first front =>
          obtain ⟨rfl, within⟩ := List.cons.inj whole
          rcases List.append_eq_append_iff.mp within with
            ⟨middle, rfl, later⟩ | ⟨middle, rfl, later⟩
          · exact inString_scan_unescapes unescapes depth
          · cases middle <;> simp at later
  | atom text =>
      obtain ⟨-, -, plain, -⟩ := spelled
      exact absurd (plain '\n' (by simp)) (by decide)
  | _ =>
      have short : front ++ '\n' :: back = [_] := spelled
      cases front <;> simp at short

end Balance

/-- A line feed in a gap divides the layout there, and one after a token divides what is
laid out after that. -/
theorem cases_of_line_in_token
    {token : Token} {gap spelling rest front back : List Char}
    (isGap : Gap (spelling ++ rest) gap) (spelled : token.SpelledAs spelling rest)
    {depth : Int} (outside : ¬(Balance.scan ⟨depth, .code⟩ front).InString)
    (whole : front ++ '\n' :: back = gap ++ (spelling ++ rest)) :
    (∃ middle, gap = front ++ '\n' :: middle ∧ back = middle ++ (spelling ++ rest)) ∨
      ∃ middle, front = gap ++ (spelling ++ middle) ∧ rest = middle ++ '\n' :: back := by
  rcases List.append_eq_append_iff.mp whole with
    ⟨middle, rfl, later⟩ | ⟨middle, rfl, later⟩
  · cases middle with
    | nil =>
        obtain ⟨c, tail, rfl, plain⟩ := spelled.head
        obtain ⟨rfl, -⟩ := List.cons.inj later
        exact absurd plain (by decide)
    | cons first middle =>
        obtain ⟨rfl, rfl⟩ := List.cons.inj later
        exact .inl ⟨middle, rfl, rfl⟩
  · right
    rcases List.append_eq_append_iff.mp later with
      ⟨more, rfl, after⟩ | ⟨more, rfl, after⟩
    · exact ⟨more, rfl, after⟩
    · cases more with
      | nil =>
          rw [List.append_nil] at spelled ⊢
          exact ⟨[], by rw [List.append_nil], after.symm⟩
      | cons first more =>
          obtain ⟨rfl, -⟩ := List.cons.inj after
          have code := Balance.outside_of_token (Balance.outside_scan_gap isGap depth).1 spelled
          rw [Balance.scan_append, code] at outside
          exact absurd (Balance.inString_scan_spelling spelled depth) outside

/-- Outside of strings a text is divided at a line feed. -/
theorem exists_layouts_of_line
    {offset : Nat} {front back : List Char} {lexemes : List Lexeme}
    (layout : Layout offset (front ++ '\n' :: back) lexemes) {depth : Int}
    (outside : ¬(Balance.scan ⟨depth, .code⟩ front).InString) :
    ∃ before after, lexemes = before ++ after ∧
      Layout offset (front ++ ['\n']) before ∧
      Layout (offset + byteCount (front ++ ['\n'])) back after := by
  generalize whole : front ++ '\n' :: back = chars at layout
  induction layout generalizing front depth with
  | @last offset gap isGap =>
      subst whole
      obtain ⟨first, second⟩ := isGap.of_append_line
      exact ⟨[], [], rfl, .last (first.append_line .nil), .last second⟩
  | @token offset gap spelling rest token lexemes isGap spelled later induction =>
      rcases cases_of_line_in_token isGap spelled outside whole with
        ⟨middle, rfl, rfl⟩ | ⟨middle, rfl, rfl⟩
      · obtain ⟨first, second⟩ := isGap.of_append_line
        have split : byteCount (front ++ '\n' :: middle) =
            byteCount (front ++ ['\n']) + byteCount middle := by
          rw [← Token.byteCount_append, List.append_assoc, List.singleton_append]
        refine ⟨[], _, rfl, .last (first.append_line .nil), ?_⟩
        rw [split, ← Nat.add_assoc] at later ⊢
        exact .token second spelled later
      · have code := Balance.outside_of_token (Balance.outside_scan_gap isGap depth).1 spelled
        rw [Balance.scan_append, code, Balance.scan_append,
          Balance.scan_spelling spelled offset] at outside
        obtain ⟨before, after, rfl, first, second⟩ := induction outside rfl
        refine ⟨_ :: before, after, rfl, ?_, ?_⟩
        · rw [List.append_assoc, List.append_assoc]
          exact .token (isGap.before_token spelled _) spelled.up_to_line first
        · simpa only [Token.byteCount_append, Nat.add_assoc] using second

end EffectLisp.Repl
