/-!
# Ranges of code points

The tables of character properties are closed ranges of code points, ascending
and apart.
-/

namespace EffectLisp.Text

/-- Whether a code point lies in one of the ranges. -/
def inRanges (ranges : List (Nat × Nat)) (code : Nat) : Bool :=
  ranges.any fun range => range.1 ≤ code && code ≤ range.2

end EffectLisp.Text
