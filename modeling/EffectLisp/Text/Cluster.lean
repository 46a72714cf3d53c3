import EffectLisp.Text.Cluster.Classes
import EffectLisp.Text.Ranges

/-!
# Clusters

A cluster is what a reader takes for one character, by the rules of Unicode for
extended grapheme clusters.  Whether a boundary stands before a character
depends on its class and on what the characters before it leave open: the class
of the last one, whether the regional indicators before it pair up, and whether
a pictograph or a conjunct is still growing.  `Boundary` keeps just that.

The main fact is that the clusters of a text are the text: nothing is lost and
nothing changes its place.
-/

namespace EffectLisp.Text

/-- What a character does to the boundaries beside it. -/
inductive BreakClass where
  | carriageReturn
  | lineFeed
  | control
  /-- A mark on the character before it. -/
  | mark
  /-- A mark that keeps a consonant from being linked. -/
  | nonJoiner
  /-- A mark that joins pictographs. -/
  | joiner
  /-- A mark that links consonants. -/
  | linker
  | spacingMark
  /-- A sign that belongs to the character after it. -/
  | leader
  /-- One half of a flag. -/
  | regional
  | pictograph
  /-- A consonant that a linker can link. -/
  | consonant
  /-- A consonant at the start of a syllable block. -/
  | initial
  | vowel
  /-- A consonant at the end of a syllable block. -/
  | final
  /-- A syllable block that no consonant closes. -/
  | openSyllable
  | closedSyllable
  | other
  deriving DecidableEq, Repr

namespace BreakClass

def ofCode (code : Nat) : BreakClass :=
  if 0x20 ≤ code && code < 0x7F then other
  else if code = 0x0D then carriageReturn
  else if code = 0x0A then lineFeed
  else if code = 0x200C then nonJoiner
  else if code = 0x200D then joiner
  else if 0xAC00 ≤ code && code ≤ 0xD7A3 then
    if (code - 0xAC00) % 28 = 0 then openSyllable else closedSyllable
  else if 0x1F1E6 ≤ code && code ≤ 0x1F1FF then regional
  else if inRanges controlRanges code then control
  else if inRanges markRanges code then mark
  else if inRanges linkerRanges code then linker
  else if inRanges spacingMarkRanges code then spacingMark
  else if inRanges leaderRanges code then leader
  else if inRanges consonantRanges code then consonant
  else if inRanges initialRanges code then initial
  else if inRanges vowelRanges code then vowel
  else if inRanges finalRanges code then final
  else if inRanges pictographRanges code then pictograph
  else other

/-- A character that stands alone. -/
def isControl : BreakClass → Bool
  | carriageReturn | lineFeed | control => true
  | _ => false

/-- A mark that always stays with the character before it. -/
def isAttached : BreakClass → Bool
  | mark | nonJoiner | joiner | linker | spacingMark => true
  | _ => false

/-- Whether two characters are parts of one syllable block. -/
def sameSyllable : BreakClass → BreakClass → Bool
  | initial, initial | initial, vowel | initial, openSyllable | initial, closedSyllable => true
  | openSyllable, vowel | openSyllable, final | vowel, vowel | vowel, final => true
  | closedSyllable, final | final, final => true
  | _, _ => false

end BreakClass

/-- A conjunct that is growing: not at all, a consonant with its marks, or a
consonant with a linker among its marks. -/
inductive Conjunct where
  | absent
  | unlinked
  | linked
  deriving DecidableEq, Repr

namespace Cluster

/-- What the characters so far leave open about the next boundary. -/
structure Boundary where
  last : BreakClass
  /-- An odd number of regional indicators stands last. -/
  unpaired : Bool
  /-- A pictograph with its marks stands last, and at most one joiner after it. -/
  pictured : Bool
  conjunct : Conjunct
  deriving DecidableEq, Repr

namespace Boundary

def start : Boundary := ⟨.control, false, false, .absent⟩

def grow (conjunct : Conjunct) : BreakClass → Conjunct
  | .consonant => .unlinked
  | .mark | .joiner => conjunct
  | .linker => if conjunct = .absent then .absent else .linked
  | _ => .absent

/-- Whether a pictograph with its marks, and at most one joiner after it, stands
last after one more character. -/
def pictures (boundary : Boundary) : BreakClass → Bool
  | .pictograph => true
  | .mark | .nonJoiner | .linker | .joiner => boundary.pictured && boundary.last ≠ .joiner
  | _ => false

def advance (boundary : Boundary) (next : BreakClass) : Boundary where
  last := next
  unpaired := next = .regional && !(boundary.last = .regional && boundary.unpaired)
  pictured := boundary.pictures next
  conjunct := grow boundary.conjunct next

/-- Whether a character belongs to the cluster before it. -/
def joins (boundary : Boundary) (next : BreakClass) : Bool :=
  if boundary.last.isControl || next.isControl then
    boundary.last = .carriageReturn && next = .lineFeed
  else
    next.isAttached || boundary.last = .leader || BreakClass.sameSyllable boundary.last next
      || (next = .consonant && boundary.conjunct = .linked)
      || (next = .pictograph && boundary.last = .joiner && boundary.pictured)
      || (next = .regional && boundary.last = .regional && boundary.unpaired)

end Boundary

/-- The clusters of characters, after the reversed clusters `done` and the reversed
characters `current` of one more. -/
def splitFrom (done : List (List Char)) (boundary : Boundary) (current : List Char) :
    List Char → List (List Char)
  | [] => if current = [] then done.reverse else (current.reverse :: done).reverse
  | c :: chars =>
      let next := BreakClass.ofCode c.toNat
      if current = [] || boundary.joins next then
        splitFrom done (boundary.advance next) (c :: current) chars
      else splitFrom (current.reverse :: done) (boundary.advance next) [c] chars

def split (chars : List Char) : List (List Char) :=
  splitFrom [] .start [] chars

theorem flatten_splitFrom (done : List (List Char)) (boundary : Boundary)
    (current chars : List Char) :
    (splitFrom done boundary current chars).flatten
      = done.reverse.flatten ++ current.reverse ++ chars := by
  induction chars generalizing done boundary current with
  | nil =>
      unfold splitFrom
      split <;> simp_all
  | cons c chars induction =>
      unfold splitFrom
      simp only
      split <;> simp [induction]

/-- The clusters of a text are the text. -/
@[simp]
theorem flatten_split (chars : List Char) : (split chars).flatten = chars := by
  simp [split, flatten_splitFrom]

end Cluster

end EffectLisp.Text
