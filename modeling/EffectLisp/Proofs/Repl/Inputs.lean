import EffectLisp.Proofs.Datum.Division
import EffectLisp.Proofs.Repl.LineBreak
import EffectLisp.Proofs.Text.Lines
import EffectLisp.Repl

/-!
# The inputs of a conversation

A conversation gathers lines into inputs, each up to the first line that balances it.  If
the lines are those of a text that can be read, every input ends between two data: it is
balanced, so no list and no string is cut, and a quote mark before the cut is excluded.
The inputs are then read as the data of the text.
-/

namespace EffectLisp.Repl

open Datum (DerivesItems EndsInQuoteMark)
open Token (Gap Layout)

/-- The texts that the lines lead to run, in order, and what waits after them. -/
def gather (pending : String) : List String → List String × String
  | [] => ([], pending)
  | line :: lines =>
      match react pending line with
      | .command _ => gather pending lines
      | .wait text => gather text lines
      | .run source => (source :: (gather "" lines).1, (gather "" lines).2)

/-- The lines that are commands other than to skip the line. -/
def commandWords : List String := ["exit", "quit", ".help", ".h", ".builtins", ".b"]

/-- No line that begins an input is such a command. -/
def NoCommand (pending : String) (lines : List String) : Prop :=
  ∀ before line after, lines = before ++ line :: after → (gather pending before).2 = "" →
    Text.trim line ∉ commandWords

/-- Outside of all lists and strings the last token of the line is a quote mark. -/
def EndsInQuote (before : List String) (line : String) : Prop :=
  ∃ front gap, line.toList = front ++ '\'' :: gap ∧ Gap ['\n'] gap ∧
    Balance.start.scan (Text.unlines before ++ front) = .start

section Reactions

variable {pending line : String}

theorem ofLine?_cases {c : Command} (command : Command.ofLine? line = some c) :
    c = .skip ∧ Text.trim line = "" ∨ Text.trim line ∈ commandWords := by
  unfold Command.ofLine? at command
  split at command <;> simp_all [commandWords]

theorem react_cases (pending line : String) :
    (pending = "" ∧ ∃ c, Command.ofLine? line = some c ∧ react pending line = .command c) ∨
    (react pending line = .run (pending ++ line ++ "\n") ∧
      isBalanced (pending ++ line ++ "\n") = true) ∨
    react pending line = .wait (pending ++ line ++ "\n") ∧
      isBalanced (pending ++ line ++ "\n") = false := by
  unfold react
  split
  · next c command =>
      left
      split at command
      · next empty => exact ⟨String.isEmpty_iff.mp empty, c, command, rfl⟩
      · cases command
  · right
    by_cases balanced : isBalanced (pending ++ line ++ "\n") = true
    · exact .inl ⟨if_pos balanced, balanced⟩
    · exact .inr ⟨if_neg balanced, by simpa using balanced⟩

theorem NoCommand.tail
    {lines : List String} (noCommand : NoCommand pending (line :: lines)) {next : String}
    (goesOn : ∀ before, (gather pending (line :: before)).2 = (gather next before).2) :
    NoCommand next lines := by
  intro before own after split waits
  apply noCommand (line :: before) own after (by rw [split, List.cons_append])
  rw [goesOn, waits]

/-- Without commands a line is skipped, or its input runs, or it waits. -/
theorem NoCommand.cases
    {lines : List String} (noCommand : NoCommand pending (line :: lines)) :
    (pending = "" ∧ react pending line = .command .skip ∧ Text.trim line = "" ∧
      NoCommand "" lines) ∨
    (react pending line = .run (pending ++ line ++ "\n") ∧
      isBalanced (pending ++ line ++ "\n") = true ∧ NoCommand "" lines) ∨
    react pending line = .wait (pending ++ line ++ "\n") ∧
      isBalanced (pending ++ line ++ "\n") = false ∧
      NoCommand (pending ++ line ++ "\n") lines := by
  rcases react_cases pending line with
    ⟨rfl, c, command, reacts⟩ | ⟨reacts, balanced⟩ | ⟨reacts, unbalanced⟩
  · have noWord := noCommand [] line lines rfl rfl
    obtain ⟨rfl, blank⟩ := (ofLine?_cases command).resolve_right noWord
    exact .inl ⟨rfl, reacts, blank, noCommand.tail fun before => by rw [gather, reacts]⟩
  · have rest : NoCommand "" lines := noCommand.tail fun before => by rw [gather, reacts]
    exact .inr (.inl ⟨reacts, balanced, rest⟩)
  · have rest : NoCommand (pending ++ line ++ "\n") lines :=
      noCommand.tail fun before => by rw [gather, reacts]
    exact .inr (.inr ⟨reacts, unbalanced, rest⟩)

end Reactions

namespace Balance

theorem region_of_line (balance : Balance) (inString : balance.InString) :
    (balance.step '\n').region = .string := by
  rcases inString with inside | inside <;> simp [step, inside]

theorem noComment_of_line (balance : Balance) : (balance.step '\n').region ≠ .comment := by
  obtain ⟨depth, region⟩ := balance
  cases region <;> simp [step]

theorem scan_blank
    {chars : List Char} (blank : ∀ c ∈ chars, Text.isBlank c = true) (depth : Int) :
    scan ⟨depth, .code⟩ chars = ⟨depth, .code⟩ := by
  induction chars with
  | nil => rfl
  | cons c chars induction =>
      have head := blank c (by simp)
      have unchanged : step ⟨depth, .code⟩ c = ⟨depth, .code⟩ := by
        apply step_code <;>
        · rintro rfl
          exact absurd head (by decide)
      rw [scan_cons, unchanged]
      apply induction
      intro d member
      exact blank d (by simp [member])

end Balance

theorem isBalanced_iff {text : String} {lexemes : List Lexeme} {offset : Nat}
    (layout : Layout offset text.toList lexemes) :
    isBalanced text = true ↔ openings lexemes ≤ closings lexemes := by
  have closed := Balance.isClosed_of_outside (Balance.outside_scan_layout layout 0)
  change (Balance.scan _ _).isClosed = true ↔ _
  rw [Balance.start, closed]
  omega

theorem exists_plain_of_spelledAs
    {token : Token} {spelling rest : List Char} (spelled : token.SpelledAs spelling rest) :
    ∃ c ∈ spelling, Text.isBlank c = false := by
  cases token with
  | opening =>
      cases spelled
      exact ⟨'(', by simp, by decide⟩
  | closing =>
      cases spelled
      exact ⟨')', by simp, by decide⟩
  | quoteMark =>
      cases spelled
      exact ⟨'\'', by simp, by decide⟩
  | literal text =>
      obtain ⟨inside, rfl, -⟩ := spelled
      exact ⟨'"', by simp, by decide⟩
  | atom text =>
      obtain ⟨-, nonempty, plain, -⟩ := spelled
      obtain ⟨c, tail, rfl⟩ := List.exists_cons_of_ne_nil nonempty
      have delimits := plain c List.mem_cons_self
      simp only [Token.isDelimiter, Bool.or_eq_false_iff] at delimits
      exact ⟨c, List.mem_cons_self, by simp_all⟩

/-- A blank text is laid out without tokens. -/
theorem eq_nil_of_blank
    {offset : Nat} {chars : List Char} {lexemes : List Lexeme}
    (layout : Layout offset chars lexemes) (blank : ∀ c ∈ chars, Text.isBlank c = true) :
    lexemes = [] := by
  cases layout with
  | last => rfl
  | token _ spelled _ =>
      obtain ⟨c, member, plain⟩ := exists_plain_of_spelledAs spelled
      rw [blank c (by simp [member])] at plain
      cases plain

/-- A last quote mark is followed by a gap, and the balance in front of it is that of the
tokens before. -/
theorem exists_quote_of_layout
    {offset place : Nat} {chars : List Char} {lexemes : List Lexeme}
    (layout : Layout offset chars (lexemes ++ [⟨.quoteMark, place⟩])) (depth : Int) :
    ∃ front gap, chars = front ++ '\'' :: gap ∧ Gap [] gap ∧
      Balance.scan ⟨depth, .code⟩ front =
        ⟨depth + openings lexemes - closings lexemes, .code⟩ := by
  induction lexemes generalizing offset chars depth with
  | nil =>
      cases layout with
      | @token _ gap spelling rest _ _ isGap spelled later =>
          have code := Balance.outside_of_token (Balance.outside_scan_gap isGap depth).1 spelled
          cases spelled
          cases later with
          | last ends => exact ⟨gap, rest, rfl, ends, by simpa using code⟩
  | cons lexeme lexemes induction =>
      cases layout with
      | @token _ gap spelling rest token _ isGap spelled later =>
          have code := Balance.outside_of_token (Balance.outside_scan_gap isGap depth).1 spelled
          let first : List Lexeme := [⟨token, offset + Token.byteCount gap⟩]
          obtain ⟨front, ending, rfl, ends, scanned⟩ :=
            induction later (depth + openings first - closings first)
          refine ⟨gap ++ (spelling ++ front), ending, by simp, ends, ?_⟩
          rw [Balance.scan_append, code, Balance.scan_append,
            Balance.scan_spelling spelled (offset + Token.byteCount gap), scanned]
          have total : depth + openings first - closings first + openings lexemes -
              closings lexemes =
              depth + openings (first ++ lexemes) - closings (first ++ lexemes) := by
            rw [openings_append, closings_append]
            omega
          rw [total]
          rfl

/-- No line but one that ends in a quote mark brings tokens to such an end. -/
theorem not_endsInQuoteMark
    {typed : List String} {settled source : List Char} {first after : List Lexeme}
    {offset : Nat} {vs : List Value}
    (whole : Text.unlines typed = settled ++ source)
    (closed : Balance.start.scan settled = .start)
    (layout : Layout offset source first) (derives : DerivesItems 0 (first ++ after) vs)
    (balanced : openings first ≤ closings first)
    (noQuote : ∀ before line rest, typed = before ++ line :: rest → ¬EndsInQuote before line) :
    ¬EndsInQuoteMark first := by
  rintro ⟨lexemes, place, rfl⟩
  obtain ⟨front, gap, rfl, isGap, scanned⟩ := exists_quote_of_layout layout 0
  rw [← List.append_assoc] at whole
  obtain ⟨before, line, rest, head, tail, lines, spelled, text, rfl⟩ :=
    Text.exists_line_of_unlines (by decide) whole
  apply noQuote before line rest lines
  refine ⟨head, tail, spelled, isGap.of_append_line.1, ?_⟩
  have fewer := derives.closings_le (List.append_assoc ..)
  simp only [openings_append, closings_append, openings_cons, closings_cons] at balanced
  have level : openings lexemes = closings lexemes := by
    simp at balanced
    omega
  rw [← text, Balance.scan_append, closed, Balance.start, scanned, level]
  simp

/-- A balanced input is divided from the lines after it. -/
theorem exists_layouts_of_run
    {offset : Nat} {pending line : String} {lines : List String} {lexemes : List Lexeme}
    (layout : Layout offset ((pending ++ line ++ "\n").toList ++ Text.unlines lines) lexemes)
    (balanced : isBalanced (pending ++ line ++ "\n") = true) :
    ∃ first after, lexemes = first ++ after ∧
      Layout offset (pending ++ line ++ "\n").toList first ∧
      Layout (offset + Token.byteCount (pending ++ line ++ "\n").toList)
        (Text.unlines lines) after := by
  have chars : (pending ++ line ++ "\n").toList = (pending ++ line).toList ++ ['\n'] := by simp
  have outside : ¬(Balance.scan ⟨0, .code⟩ (pending ++ line).toList).InString := by
    intro inString
    have unclosed := Balance.region_of_line _ inString
    change (Balance.scan ⟨0, .code⟩ (pending ++ line ++ "\n").toList).isClosed = true at balanced
    rw [chars, Balance.scan_append, Balance.scan_cons, Balance.scan_nil] at balanced
    simp only [Balance.isClosed, unclosed] at balanced
    simp at balanced
  rw [chars, List.append_assoc, List.singleton_append] at layout
  rw [chars]
  exact exists_layouts_of_line layout outside

/-- After an input that is read the balance is as at the start. -/
theorem scan_of_run
    {offset : Nat} {text : String} {first : List Lexeme} {vs : List Value}
    (layout : Layout offset (text ++ "\n").toList first) (derives : DerivesItems 0 first vs) :
    Balance.start.scan (text ++ "\n").toList = .start := by
  have outside := Balance.outside_scan_layout layout 0
  have level : (0 : Int) + openings first - closings first = 0 := by
    rw [derives.closings_eq]
    omega
  rw [level] at outside
  rcases outside with same | ⟨-, same⟩
  · exact same
  · have chars : (text ++ "\n").toList = text.toList ++ ['\n'] := by simp
    have inCode := Balance.noComment_of_line (Balance.scan ⟨0, .code⟩ text.toList)
    rw [chars, Balance.scan_append, Balance.scan_cons, Balance.scan_nil] at same
    rw [same] at inCode
    exact absurd rfl inCode

/-- An input that runs is read as the first of the data, after which the balance is as at the
start, and the lines after it are laid out as the others. -/
theorem exists_read_of_run
    {typed lines : List String} {settled : List Char} {pending line : String} {offset : Nat}
    {lexemes : List Lexeme} {vs : List Value}
    (layout : Layout offset ((pending ++ line ++ "\n").toList ++ Text.unlines lines) lexemes)
    (derives : DerivesItems 0 lexemes vs)
    (whole : Text.unlines typed = settled ++ (pending ++ line ++ "\n").toList)
    (closed : Balance.start.scan settled = .start)
    (balanced : isBalanced (pending ++ line ++ "\n") = true)
    (noQuote : ∀ before own rest, typed = before ++ own :: rest → ¬EndsInQuote before own) :
    ∃ front back after, vs = front ++ back ∧
      Datum.readAll (pending ++ line ++ "\n") = .ok front ∧
      Balance.start.scan (settled ++ (pending ++ line ++ "\n").toList) = .start ∧
      Layout (offset + Token.byteCount (pending ++ line ++ "\n").toList)
        (Text.unlines lines) after ∧
      DerivesItems 0 after back := by
  obtain ⟨first, after, rfl, layoutFirst, layoutAfter⟩ := exists_layouts_of_run layout balanced
  have fewer := (isBalanced_iff layoutFirst).mp balanced
  have noMark := not_endsInQuoteMark whole closed layoutFirst derives fewer noQuote
  obtain ⟨front, back, rfl, derivesFirst, derivesAfter⟩ := derives.exists_division fewer noMark
  have reads := Datum.readAll_of_layout layoutFirst derivesFirst
  have settles : Balance.start.scan (settled ++ (pending ++ line ++ "\n").toList) = .start := by
    rw [Balance.scan_append, closed]
    exact scan_of_run layoutFirst derivesFirst
  exact ⟨front, back, after, rfl, reads, settles, layoutAfter, derivesAfter⟩

/-- A line that is skipped holds no token. -/
theorem layout_of_skip
    {offset : Nat} {line : String} {lines : List String} {lexemes : List Lexeme}
    (layout : Layout offset (Text.unlines (line :: lines)) lexemes)
    (blank : ∀ c ∈ line.toList, Text.isBlank c = true) :
    Layout (offset + Token.byteCount (line.toList ++ ['\n'])) (Text.unlines lines) lexemes := by
  have outside : ¬(Balance.scan ⟨0, .code⟩ line.toList).InString := by
    rw [Balance.scan_blank blank]
    nofun
  obtain ⟨before, after, rfl, layoutBefore, layoutAfter⟩ :=
    exists_layouts_of_line layout outside
  have none : before = [] := by
    apply eq_nil_of_blank layoutBefore
    intro c member
    rcases List.mem_append.mp member with inLine | lineFeed
    · exact blank c inLine
    · cases List.mem_singleton.mp lineFeed
      decide
  rwa [none]

/-- The inputs that lines are gathered into are read as the data of the lines, and nothing
waits after them.  The typed lines are a text after which the balance was as at the start,
and what waits. -/
theorem exists_read_of_gather
    {typed lines : List String} {settled : List Char} {pending : String} {offset : Nat}
    {lexemes : List Lexeme} {vs : List Value}
    (layout : Layout offset (pending.toList ++ Text.unlines lines) lexemes)
    (derives : DerivesItems 0 lexemes vs)
    (whole : Text.unlines typed = settled ++ pending.toList)
    (closed : Balance.start.scan settled = .start)
    (waits : pending = "" ∨ isBalanced pending = false)
    (noCommand : NoCommand pending lines)
    (noQuote : ∀ before line rest, typed ++ lines = before ++ line :: rest →
      ¬EndsInQuote before line) :
    ∃ parts : List (List Value), (gather pending lines).1.map Datum.readAll = parts.map .ok ∧
      parts.flatten = vs ∧ (gather pending lines).2 = "" := by
  induction lines generalizing typed settled pending offset lexemes vs with
  | nil =>
      rw [Text.unlines, List.append_nil] at layout
      rcases waits with rfl | unbalanced
      · cases eq_nil_of_blank layout (by simp)
        exact ⟨[], rfl, derives.eq_nil.symm, rfl⟩
      · have balanced := (isBalanced_iff layout).mpr (Nat.le_of_eq derives.closings_eq.symm)
        rw [unbalanced] at balanced
        cases balanced
  | cons line lines induction =>
      have typed_next : Text.unlines (typed ++ [line]) =
          settled ++ (pending ++ line ++ "\n").toList := by
        simp [Text.unlines_append, whole, Text.unlines]
      have goesOn : pending.toList ++ Text.unlines (line :: lines) =
          (pending ++ line ++ "\n").toList ++ Text.unlines lines := by
        simp [Text.unlines]
      have further (before : List String) (own : String) (rest : List String)
          (split : (typed ++ [line]) ++ lines = before ++ own :: rest) :
          ¬EndsInQuote before own := by
        rw [List.append_assoc] at split
        exact noQuote before own rest split
      rcases noCommand.cases with
        ⟨rfl, reacts, trimmed, later⟩ | ⟨reacts, balanced, later⟩ | ⟨reacts, unbalanced, later⟩
      · have blank := Text.isBlank_of_trim trimmed
        have layoutAfter := layout_of_skip layout blank
        have settled_next :
            Balance.start.scan (settled ++ (line.toList ++ ['\n'])) = .start := by
          rw [Balance.scan_append, closed, Balance.scan_append, Balance.start,
            Balance.scan_blank blank]
          rfl
        rw [gather, reacts]
        apply induction layoutAfter derives ?_ settled_next (.inl rfl) later further
        rw [typed_next]
        simp
      · rw [goesOn] at layout
        have before_now (before : List String) (own : String) (rest : List String)
            (split : typed ++ [line] = before ++ own :: rest) : ¬EndsInQuote before own := by
          apply further before own (rest ++ lines)
          rw [split, List.append_assoc, List.cons_append]
        obtain ⟨front, back, after, rfl, reads_first, settled_next, layoutAfter, derivesAfter⟩ :=
          exists_read_of_run layout derives typed_next closed balanced before_now
        have typed_settled : Text.unlines (typed ++ [line]) =
            (settled ++ (pending ++ line ++ "\n").toList) ++ "".toList := by
          rw [typed_next]
          simp
        obtain ⟨parts, reads, rfl, nothing⟩ :=
          induction layoutAfter derivesAfter typed_settled settled_next (.inl rfl) later further
        rw [gather, reacts]
        exact ⟨front :: parts, by simp [reads_first, reads], rfl, nothing⟩
      · rw [goesOn] at layout
        rw [gather, reacts]
        exact induction layout derives typed_next closed (.inr unbalanced) later further

end EffectLisp.Repl
