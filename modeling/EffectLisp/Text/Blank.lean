import EffectLisp.Text.Ranges

/-!
# Blank characters

Unicode gives 25 characters the property `White_Space`.  They end an atom in
program text and are what trimming a line removes.  Only four of them also
separate tokens; those are named in `EffectLisp.Token.Lexer`.
-/

namespace EffectLisp.Text

/-- The code points of Unicode property `White_Space`, as closed ranges. -/
def blankRanges : List (Nat × Nat) :=
  [(0x0009, 0x000D), (0x0020, 0x0020), (0x0085, 0x0085), (0x00A0, 0x00A0),
   (0x1680, 0x1680), (0x2000, 0x200A), (0x2028, 0x2029), (0x202F, 0x202F),
   (0x205F, 0x205F), (0x3000, 0x3000)]

/-- A character with Unicode property `White_Space`. -/
def isBlank (c : Char) : Bool :=
  inRanges blankRanges c.toNat

/-- The line without the blank characters at its two ends. -/
def trim (line : String) : String :=
  let unindented := line.toList.dropWhile isBlank
  String.ofList (unindented.reverse.dropWhile isBlank).reverse

end EffectLisp.Text
