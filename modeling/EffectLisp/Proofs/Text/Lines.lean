import EffectLisp.Text.Blank
import EffectLisp.Text.Lines
import Mathlib.Data.List.TakeWhile

/-!
# Texts and their lines

Lines that are each ended by a line feed are the text that they are the lines of, which
then may lack its last line feed.  A character that is no line feed stands in one of the
lines.
-/

namespace EffectLisp.Text

/-- The lines as one text, each ended by a line feed. -/
def unlines : List String → List Char
  | [] => []
  | line :: lines => line.toList ++ '\n' :: unlines lines

theorem unlines_append (front back : List String) :
    unlines (front ++ back) = unlines front ++ unlines back := by
  induction front with
  | nil => rfl
  | cons line front induction =>
      rw [List.cons_append, unlines, unlines, induction, List.append_assoc, List.cons_append]

theorem endedLine_of_not_mem {line : List Char} (noReturn : '\r' ∉ line) :
    endedLine line = line.reverse := by
  unfold endedLine
  split
  · simp at noReturn
  · rfl

theorem unlines_linesFrom
    (line chars : List Char) (noReturn : '\r' ∉ line ++ chars) :
    ∃ tail, (tail = [] ∨ tail = ['\n']) ∧
      unlines ((linesFrom line chars).map String.ofList) = line.reverse ++ chars ++ tail := by
  induction chars generalizing line with
  | nil =>
      cases line with
      | nil => exact ⟨[], .inl rfl, rfl⟩
      | cons c line => exact ⟨['\n'], .inr rfl, by simp [linesFrom, unlines]⟩
  | cons c chars induction =>
      rw [linesFrom]
      split
      · next lineFeed =>
          subst lineFeed
          have before : '\r' ∉ line := by simp_all
          have after : '\r' ∉ [] ++ chars := by simp_all
          obtain ⟨tail, ends, same⟩ := induction [] after
          refine ⟨tail, ends, ?_⟩
          simp [unlines, endedLine_of_not_mem before, same]
      · have further : '\r' ∉ (c :: line) ++ chars := by simp_all
        obtain ⟨tail, ends, same⟩ := induction _ further
        refine ⟨tail, ends, ?_⟩
        simp [same]

/-- The lines of a text without carriage returns are that text. -/
theorem unlines_lines {text : String} (noReturn : '\r' ∉ text.toList) :
    unlines (lines text) = text.toList ∨ unlines (lines text) = text.toList ++ ['\n'] := by
  obtain ⟨tail, rfl | rfl, same⟩ := unlines_linesFrom [] text.toList noReturn
  · left
    rw [lines, same, List.append_nil]
    rfl
  · right
    rw [lines, same]
    rfl

theorem exists_line_of_unlines
    {lines : List String} {front back : List Char} {c : Char} (inLine : c ≠ '\n')
    (same : unlines lines = front ++ c :: back) :
    ∃ before line after head tail,
      lines = before ++ line :: after ∧ line.toList = head ++ c :: tail ∧
        front = unlines before ++ head ∧ back = tail ++ '\n' :: unlines after := by
  induction lines generalizing front with
  | nil => simp [unlines] at same
  | cons line lines induction =>
      rw [unlines] at same
      rcases List.append_eq_append_iff.mp same with
        ⟨middle, rfl, later⟩ | ⟨middle, within, later⟩
      · cases middle with
        | nil =>
            obtain ⟨lineFeed, -⟩ := List.cons.inj later
            exact absurd lineFeed.symm inLine
        | cons first middle =>
            obtain ⟨rfl, further⟩ := List.cons.inj later
            obtain ⟨before, own, after, head, tail, rfl, spelled, rfl, rfl⟩ := induction further
            exact ⟨line :: before, own, after, head, tail, rfl, spelled, by simp [unlines], rfl⟩
      · cases middle with
        | nil =>
            obtain ⟨lineFeed, -⟩ := List.cons.inj later
            exact absurd lineFeed inLine
        | cons first middle =>
            obtain ⟨rfl, rfl⟩ := List.cons.inj later
            exact ⟨[], line, lines, front, middle, rfl, within, rfl, rfl⟩

/-- A line of which trimming leaves nothing is blank. -/
theorem isBlank_of_trim {line : String} (empty : trim line = "") :
    ∀ c ∈ line.toList, isBlank c = true := by
  have trimmed : (line.toList.dropWhile isBlank).reverse.dropWhile isBlank = [] := by
    simpa [trim] using empty
  apply List.dropWhile_eq_nil_iff.mp
  cases begun : line.toList.dropWhile isBlank with
  | nil => rfl
  | cons c tail =>
      have blank := List.dropWhile_eq_nil_iff.mp trimmed c (by simp [begun])
      have plain := List.head_dropWhile_not isBlank (begun ▸ List.cons_ne_nil c tail)
      simp only [begun, List.head_cons, blank] at plain
      cases plain

end EffectLisp.Text
