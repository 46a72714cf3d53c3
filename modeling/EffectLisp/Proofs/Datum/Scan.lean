import EffectLisp.Proofs.Datum.Tree

/-!
# Where a token sequence fails

A scan goes over the tokens once, from left to right, and keeps on a stack the lists that
are open and the quote marks that wait for a datum.  A datum that is complete is what the
quote marks on top have waited for.  The scan knows nothing of values or of what the
reader is about to read, but it meets the same error at the same token: reading a datum
leaves the scan where the datum is complete.
-/

namespace EffectLisp.Datum

/-- What is not complete in a scan: a list, with the offset of its opening parenthesis, or
a quotation. -/
inductive Pending where
  | list (offset : Nat)
  | quotation
  deriving DecidableEq, Repr

/-- What is pending after a datum: the quotations on top are complete with it. -/
def complete : List Pending → List Pending
  | .quotation :: stack => complete stack
  | stack => stack

/-- One level more for the token at the offset, unless the stack is full. -/
def push (pending : Pending) (offset : Nat) (stack : List Pending) :
    Except ParseError (List Pending) :=
  if nestingLimit ≤ stack.length then .error (.tooDeep offset) else .ok (pending :: stack)

/-- What is pending after a token. -/
def advance (stack : List Pending) : Lexeme → Except ParseError (List Pending)
  | ⟨.opening, offset⟩ => push (.list offset) offset stack
  | ⟨.quoteMark, offset⟩ => push .quotation offset stack
  | ⟨.closing, offset⟩ =>
      match stack with
      | .list _ :: outer => .ok (complete outer)
      | _ => .error (.unmatchedClose offset)
  | ⟨.literal _, _⟩ => .ok (complete stack)
  | ⟨.atom _, _⟩ => .ok (complete stack)

/-- The offset of the innermost list that is open. -/
def innermost? (stack : List Pending) : Option Nat :=
  stack.findSome? fun
    | .list offset => some offset
    | .quotation => none

/-- Scan the tokens with a stack.  A quote mark may not be the last of them, and at the
end no list may be open. -/
def scan (stack : List Pending) : List Lexeme → Except ParseError Unit
  | [] =>
      match innermost? stack with
      | some offset => .error (.unclosedList offset)
      | none => .ok ()
  | [⟨.quoteMark, offset⟩] => .error (.danglingQuote offset)
  | lexeme :: rest => do
      let stack ← advance stack lexeme
      scan stack rest

/-- A closing parenthesis closes a list here, and is not where a datum should begin. -/
def Closes (stack : List Pending) (lexemes : List Lexeme) : Prop :=
  ∃ start outer offset rest,
    stack = .list start :: outer ∧ lexemes = ⟨.closing, offset⟩ :: rest

theorem not_closes_nil (lexemes : List Lexeme) : ¬Closes [] lexemes := by
  rintro ⟨_, _, _, _, same, -⟩
  cases same

theorem not_closes_quotation (stack : List Pending) (lexemes : List Lexeme) :
    ¬Closes (.quotation :: stack) lexemes := by
  rintro ⟨_, _, _, _, same, -⟩
  cases same

theorem scan_cons
    {lexeme : Lexeme} {rest : List Lexeme} (goesOn : lexeme.token ≠ .quoteMark ∨ rest ≠ [])
    (stack : List Pending) :
    scan stack (lexeme :: rest) = advance stack lexeme >>= fun stack => scan stack rest := by
  rw [scan]
  rintro offset rfl rfl
  simp at goesOn

mutual

/-- A datum is read up to where the scan has it complete, or fails as the scan does. -/
theorem scan_eq_of_datum?
    {steps : Nat} {stack : List Pending} {lexemes : List Lexeme} (nonempty : lexemes ≠ [])
    (begins : ¬Closes stack lexemes) (enough : 2 * lexemes.length ≤ steps + 1) :
    scan stack lexemes =
      datum? steps stack.length lexemes >>= fun read => scan (complete stack) read.2 := by
  match steps, lexemes with
  | _, [] => exact absurd rfl nonempty
  | 0, lexeme :: tail =>
      rw [List.length_cons] at enough
      omega
  | steps + 1, ⟨token, offset⟩ :: tail =>
      rw [List.length_cons] at enough
      cases token with
      | opening =>
          rw [scan_cons (.inl (by simp)), advance, push, datum?, descend]
          split
          · rfl
          · exact scan_eq_of_items? (by omega)
      | closing =>
          cases stack with
          | nil => rfl
          | cons pending outer =>
              cases pending with
              | list start => exact absurd ⟨start, outer, offset, tail, rfl, rfl⟩ begins
              | quotation => rfl
      | quoteMark =>
          by_cases last : tail = []
          · subst last
            rfl
          · rw [scan_cons (.inr last), advance, push, datum?, descend, if_neg last]
            split
            · rfl
            · have inner := scan_eq_of_datum? last (not_closes_quotation stack tail)
                (by omega : 2 * tail.length ≤ steps + 1)
              refine inner.trans ?_
              rw [List.length_cons]
              cases datum? steps (stack.length + 1) tail <;> rfl
      | literal text => rfl
      | atom spelling => rfl

/-- The items of a list are read up to where the scan has the list complete. -/
theorem scan_eq_of_items?
    {steps start : Nat} {done : List Value} {outer : List Pending} {lexemes : List Lexeme}
    (enough : 2 * lexemes.length ≤ steps) :
    scan (.list start :: outer) lexemes =
      items? steps (outer.length + 1) start done lexemes >>=
        fun read => scan (complete outer) read.2 := by
  match steps, lexemes with
  | 0, [] => rfl
  | _ + 1, [] => rfl
  | 0, lexeme :: tail =>
      rw [List.length_cons] at enough
      omega
  | steps + 1, ⟨token, offset⟩ :: tail =>
      by_cases closes : token = .closing
      · subst closes
        rw [scan_cons (.inl (by simp))]
        rfl
      · have begins : ¬Closes (.list start :: outer) (⟨token, offset⟩ :: tail) := by
          rintro ⟨_, _, _, _, -, same⟩
          cases same
          exact closes rfl
        have first := scan_eq_of_datum? (List.cons_ne_nil _ _) begins
          (by omega : _ ≤ steps + 1)
        rw [List.length_cons] at first
        rw [first, items?_cons closes]
        cases read : datum? steps (outer.length + 1) (⟨token, offset⟩ :: tail) with
        | error error => rfl
        | ok parts =>
            have shorter := length_lt_of_datum? read
            exact scan_eq_of_items? (by omega)

end

theorem scan_eq_of_allFrom
    {steps : Nat} {done : List Value} {lexemes : List Lexeme}
    (enough : 2 * lexemes.length ≤ steps) :
    scan [] lexemes = (allFrom steps done lexemes).map fun _ => () := by
  induction steps generalizing done lexemes with
  | zero =>
      cases lexemes with
      | nil => rfl
      | cons lexeme tail =>
          rw [List.length_cons] at enough
          omega
  | succ steps induction =>
      cases lexemes with
      | nil => rfl
      | cons lexeme tail =>
          have first := scan_eq_of_datum? (List.cons_ne_nil _ _)
            (not_closes_nil (lexeme :: tail)) (by omega : _ ≤ steps + 1)
          rw [List.length_nil] at first
          rw [first, allFrom]
          cases read : datum? steps 0 (lexeme :: tail) with
          | error error => rfl
          | ok parts =>
              have shorter := length_lt_of_datum? read
              exact induction (by omega)

theorem parseAll_eq_error_iff {lexemes : List Lexeme} {error : ParseError} :
    parseAll lexemes = .error error ↔ scan [] lexemes = .error error := by
  have same : scan [] lexemes = (parseAll lexemes).map fun _ => () :=
    scan_eq_of_allFrom (Nat.le_refl _)
  rw [same]
  cases parseAll lexemes with
  | error other =>
      change _ ↔ (Except.error other : Except ParseError Unit) = .error error
      rw [Except.error.injEq, Except.error.injEq]
  | ok vs => exact iff_of_false nofun nofun

/-- The first datum is read if some of the tokens in front derive it. -/
theorem datum?_eq_ok_iff {lexemes rest : List Lexeme} {v : Value} :
    datum? (2 * lexemes.length) 0 lexemes = .ok (v, rest) ↔
      ∃ first, lexemes = first ++ rest ∧ DerivesDatum 0 first v := by
  constructor
  · exact DerivesDatum.of_datum?
  · rintro ⟨first, rfl, derives⟩
    apply derives.datum?_eq
    rw [List.length_append]
    omega

theorem scan_eq_error_of_datum?
    {lexemes : List Lexeme} {error : ParseError} (nonempty : lexemes ≠ [])
    (failed : datum? (2 * lexemes.length) 0 lexemes = .error error) :
    scan [] lexemes = .error error := by
  have first := scan_eq_of_datum? nonempty (not_closes_nil lexemes)
    (Nat.le_succ (2 * lexemes.length))
  rw [List.length_nil, failed] at first
  exact first

/-- One datum is refused because there is none, because the scan meets an error before the
first is complete, or because the first is complete and a token follows it. -/
theorem parseOne_eq_error_iff {lexemes : List Lexeme} {error : ParseError} :
    parseOne lexemes = .error error ↔
      lexemes = [] ∧ error = .emptyInput ∨
      (∀ first rest v, lexemes = first ++ rest → ¬DerivesDatum 0 first v) ∧
        scan [] lexemes = .error error ∨
      ∃ first next rest v, lexemes = first ++ next :: rest ∧ DerivesDatum 0 first v ∧
        error = .trailingInput next.offset := by
  constructor
  · intro failed
    unfold parseOne at failed
    split at failed
    · next empty =>
        cases failed
        exact .inl ⟨empty, rfl⟩
    · next nonempty =>
        rcases bind_eq_error failed with refused | ⟨⟨v, rest⟩, read, result⟩
        · refine .inr (.inl ⟨?_, scan_eq_error_of_datum? nonempty refused⟩)
          intro first rest v whole derives
          rw [datum?_eq_ok_iff.mpr ⟨first, whole, derives⟩] at refused
          cases refused
        · obtain ⟨first, whole, derives⟩ := datum?_eq_ok_iff.mp read
          cases rest with
          | nil => cases result
          | cons next rest =>
              cases result
              exact .inr (.inr ⟨first, next, rest, v, whole, derives, rfl⟩)
  · rintro (⟨rfl, rfl⟩ | ⟨incomplete, scanned⟩ | ⟨first, next, rest, v, whole, derives, rfl⟩)
    · rfl
    · have nonempty : lexemes ≠ [] := by
        rintro rfl
        cases scanned
      rw [parseOne, if_neg nonempty]
      cases read : datum? (2 * lexemes.length) 0 lexemes with
      | error other =>
          rw [scan_eq_error_of_datum? nonempty read] at scanned
          cases scanned
          rfl
      | ok parts =>
          obtain ⟨first, whole, derives⟩ := datum?_eq_ok_iff.mp read
          exact absurd derives (incomplete first parts.2 parts.1 whole)
    · have nonempty : lexemes ≠ [] := by simp [whole]
      rw [parseOne, if_neg nonempty, datum?_eq_ok_iff.mpr ⟨first, whole, derives⟩]
      rfl

/-- The reader of every datum fails as the scan does.  The reader of one datum does so if
the first is not complete before; else it is refused for the token after it, or because
there is none. -/
theorem reader_fails_as_scan (lexemes : List Lexeme) :
    (∀ error, parseAll lexemes = .error error ↔ scan [] lexemes = .error error) ∧
    ∀ error, parseOne lexemes = .error error ↔
      lexemes = [] ∧ error = .emptyInput ∨
      (∀ first rest v, lexemes = first ++ rest → ¬DerivesDatum 0 first v) ∧
        scan [] lexemes = .error error ∨
      ∃ first next rest v, lexemes = first ++ next :: rest ∧ DerivesDatum 0 first v ∧
        error = .trailingInput next.offset :=
  ⟨fun _ => parseAll_eq_error_iff, fun _ => parseOne_eq_error_iff⟩

/-- A parenthesis that closes nothing, after a quote mark in a list and after a datum. -/
theorem reader_fails_as_scan_closing :
    let inList : List Lexeme :=
      [⟨.opening, 0⟩, ⟨.quoteMark, 1⟩, ⟨.closing, 2⟩, ⟨.quoteMark, 3⟩]
    let afterDatum : List Lexeme := [⟨.quoteMark, 0⟩, ⟨.atom "a", 1⟩, ⟨.closing, 2⟩]
    scan [] inList = .error (.unmatchedClose 2) ∧
      parseAll inList = .error (.unmatchedClose 2) ∧
      parseAll afterDatum = .error (.unmatchedClose 2) ∧
      parseOne afterDatum = .error (.trailingInput 2) := by
  intro inList afterDatum
  have quoted : DerivesDatum 0 [⟨.quoteMark, 0⟩, ⟨.atom "a", 1⟩] (quoted (ofAtom "a")) :=
    .quoteMark 0 (by decide) (.atom 1 1 "a")
  refine ⟨rfl, ((reader_fails_as_scan inList).1 _).mpr rfl,
    ((reader_fails_as_scan afterDatum).1 _).mpr rfl,
    ((reader_fails_as_scan afterDatum).2 _).mpr ?_⟩
  exact .inr (.inr ⟨_, ⟨.closing, 2⟩, [], _, rfl, quoted, rfl⟩)

end EffectLisp.Datum
