import EffectLisp.Proofs.Number.Spelling

/-!
# Which texts spell a number

The grammar of numerals beside the reader: an optional sign, digits with an optional
point of which at least one is a digit, and an optional exponent.  The reader takes these
texts, the names of the three numbers that are not finite, and nothing else.

General readers of floats also know words for those three.  The words are kept out by a
guard that sees no more than the character after the sign: of all that such a reader
would take, the guard leaves exactly the numerals.
-/

namespace EffectLisp.Number

/-- The names of the numbers that are not finite. -/
def specialNames : List String :=
  ["+inf.0", "-inf.0", "+nan.0"]

inductive IsSign : List Char → Prop where
  | absent : IsSign []
  | plus : IsSign ['+']
  | minus : IsSign ['-']

/-- Nothing, or a letter, an optional sign and at least one digit. -/
inductive IsExponent : List Char → Prop where
  | absent : IsExponent []
  | present {letter : Char} {sign digits : List Char} :
      letter = 'e' ∨ letter = 'E' → IsSign sign → digits ≠ [] → AllDigits digits →
      IsExponent (letter :: (sign ++ digits))

/-- Digits with an optional point, at least one of them a digit, and an exponent. -/
inductive IsUnsigned : List Char → Prop where
  | integral {whole exponent : List Char} :
      AllDigits whole → whole ≠ [] → IsExponent exponent → IsUnsigned (whole ++ exponent)
  | pointed {whole fraction exponent : List Char} :
      AllDigits whole → AllDigits fraction → whole ≠ [] ∨ fraction ≠ [] →
      IsExponent exponent → IsUnsigned (whole ++ '.' :: (fraction ++ exponent))

inductive IsNumeral : List Char → Prop where
  | signed {sign unsigned : List Char} :
      IsSign sign → IsUnsigned unsigned → IsNumeral (sign ++ unsigned)

/-- A name or a numeral. -/
def IsSpelling (text : String) : Prop :=
  text ∈ specialNames ∨ IsNumeral text.toList

/-- The words that general readers of floats know, in any case and with any sign. -/
inductive IsWord : List Char → Prop where
  | signed {sign word : List Char} :
      IsSign sign → word.map Char.toLower ∈ ["inf", "infinity", "nan"].map String.toList →
      IsWord (sign ++ word)

/-- Whether a digit or a point stands first, or right after a sign. -/
def opensNumeral (chars : List Char) : Bool :=
  match (splitSign chars).2 with
  | c :: _ => c.isDigit || c = '.'
  | [] => false

/-- A character that is taken for a sign. -/
def isSignMark (c : Char) : Bool :=
  c = '+' || c = '-'

section Signs

theorem exists_sign (chars : List Char) :
    ∃ sign, IsSign sign ∧ chars = sign ++ (splitSign chars).2 := by
  unfold splitSign
  split
  · exact ⟨_, .minus, rfl⟩
  · exact ⟨_, .plus, rfl⟩
  · exact ⟨_, .absent, rfl⟩

theorem IsSign.mem_marks {sign : List Char} (signed : IsSign sign) :
    ∀ c ∈ sign, c ∈ ['+', '-'] := by
  cases signed <;> simp

theorem splitSign_append
    {sign rest : List Char} (signed : IsSign sign) (bare : Text.StopsAt isSignMark rest) :
    (splitSign (sign ++ rest)).2 = rest := by
  cases signed with
  | plus => rfl
  | minus => rfl
  | absent =>
      cases rest with
      | nil => rfl
      | cons c tail =>
          have noSign : isSignMark c = false := bare c tail rfl
          simp only [isSignMark, Bool.or_eq_false_iff, decide_eq_false_iff_not] at noSign
          simp [splitSign, noSign]

theorem isSignMark_of_isDigit {c : Char} (digit : c.isDigit = true) : isSignMark c = false := by
  rw [← Bool.not_eq_true]
  intro sign
  simp only [isSignMark, Bool.or_eq_true, decide_eq_true_eq] at sign
  rcases sign with rfl | rfl <;> exact absurd digit (by decide)

end Signs

section Grammar

variable {chars : List Char}

theorem AllDigits.bare (allDigits : AllDigits chars) : ∀ c ∈ chars, isSignMark c = false :=
  fun c member => isSignMark_of_isDigit (allDigits c member)

theorem AllDigits.stopsAt (allDigits : AllDigits chars) : Text.StopsAt isSignMark chars := by
  intro digit rest divided
  subst divided
  exact allDigits.bare digit List.mem_cons_self

theorem isSome_exponent?_iff :
    (exponent? chars).isSome = true ↔
      ∃ sign digits, IsSign sign ∧ digits ≠ [] ∧ AllDigits digits ∧
        chars = sign ++ digits := by
  have taken : (exponent? chars).isSome = true ↔
      (splitSign chars).2 ≠ [] ∧ AllDigits (splitSign chars).2 := by
    unfold exponent?
    generalize splitSign chars = divided
    obtain ⟨negative, digits⟩ := divided
    by_cases missing : digits = []
    · simp [missing]
    · by_cases all : digits.all Char.isDigit = true
      · have allDigits : AllDigits digits := List.all_eq_true.mp all
        cases negative <;> simp [missing, all, allDigits]
      · have notDigits : ¬AllDigits digits := mt List.all_eq_true.mpr all
        simp [missing, all, notDigits]
  rw [taken]
  constructor
  · intro given
    obtain ⟨nonempty, digits⟩ := given
    obtain ⟨sign, signed, divided⟩ := exists_sign chars
    exact ⟨sign, _, signed, nonempty, digits, divided⟩
  · intro given
    obtain ⟨sign, digits, signed, nonempty, allDigits, rfl⟩ := given
    rw [splitSign_append signed allDigits.stopsAt]
    exact ⟨nonempty, allDigits⟩

theorem isSome_suffix?_iff : (suffix? chars).isSome = true ↔ IsExponent chars := by
  cases chars with
  | nil => exact ⟨fun _ => .absent, fun _ => rfl⟩
  | cons letter chars =>
      by_cases marked : letter = 'e' ∨ letter = 'E'
      · rw [suffix?, if_pos (by simpa using marked), isSome_exponent?_iff]
        constructor
        · intro given
          obtain ⟨sign, digits, signed, nonempty, allDigits, rfl⟩ := given
          exact .present marked signed nonempty allDigits
        · intro exponent
          cases exponent with
          | present _ signed nonempty allDigits =>
              exact ⟨_, _, signed, nonempty, allDigits, rfl⟩
      · rw [suffix?, if_neg (by simpa using marked)]
        constructor
        · intro some
          cases some
        · intro exponent
          cases exponent with
          | present letterMarked => exact absurd letterMarked marked

/-- A run of characters goes on in an exponent only if it can have the letter. -/
theorem IsExponent.stopsAt
    (exponent : IsExponent chars) {p : Char → Bool} (lower : p 'e' = false)
    (upper : p 'E' = false) : Text.StopsAt p chars := by
  cases exponent with
  | absent => exact Text.stopsAt_nil p
  | present marked =>
      rcases marked with rfl | rfl
      · exact Text.stopsAt_cons lower _
      · exact Text.stopsAt_cons upper _

theorem allDigits_takeWhile (chars : List Char) : AllDigits (chars.takeWhile Char.isDigit) :=
  fun _ member => List.mem_takeWhile_imp member

theorem splitFraction_of_stopsAt (noPoint : Text.StopsAt (· = '.') chars) :
    splitFraction chars = ([], chars) := by
  unfold splitFraction
  split
  · next rest => exact absurd (noPoint '.' rest rfl) (by decide)
  · rfl

theorem isUnsigned_iff :
    IsUnsigned chars ↔
      (chars.takeWhile Char.isDigit ≠ [] ∨
        (splitFraction (chars.dropWhile Char.isDigit)).1 ≠ []) ∧
      IsExponent (splitFraction (chars.dropWhile Char.isDigit)).2 := by
  constructor
  · intro unsigned
    cases unsigned with
    | @integral whole exponent allDigits nonempty isExponent =>
        -- An exponent begins with its letter, so it adds nothing to the digits before it.
        have stops := isExponent.stopsAt (p := Char.isDigit) rfl rfl
        rw [Text.takeWhile_append_of_stopsAt allDigits stops,
          Text.dropWhile_append_of_stopsAt allDigits stops,
          splitFraction_of_stopsAt (isExponent.stopsAt rfl rfl)]
        exact ⟨.inl nonempty, isExponent⟩
    | @pointed whole fraction exponent wholeDigits fractionDigits nonempty isExponent =>
        have point : Text.StopsAt Char.isDigit ('.' :: (fraction ++ exponent)) :=
          Text.stopsAt_cons (by decide) _
        have stops := isExponent.stopsAt (p := Char.isDigit) rfl rfl
        rw [Text.takeWhile_append_of_stopsAt wholeDigits point,
          Text.dropWhile_append_of_stopsAt wholeDigits point, splitFraction,
          Text.takeWhile_append_of_stopsAt fractionDigits stops,
          Text.dropWhile_append_of_stopsAt fractionDigits stops]
        exact ⟨nonempty, isExponent⟩
  · intro given
    obtain ⟨nonempty, exponent⟩ := given
    have divided : chars = chars.takeWhile Char.isDigit ++ chars.dropWhile Char.isDigit :=
      List.takeWhile_append_dropWhile.symm
    have wholeDigits := allDigits_takeWhile chars
    generalize chars.takeWhile Char.isDigit = whole at nonempty divided wholeDigits
    generalize chars.dropWhile Char.isDigit = rest at nonempty exponent divided
    subst divided
    by_cases pointed : ∃ digits, rest = '.' :: digits
    · obtain ⟨digits, rfl⟩ := pointed
      rw [← List.takeWhile_append_dropWhile (p := Char.isDigit) (l := digits)]
      exact .pointed wholeDigits (allDigits_takeWhile digits) nonempty exponent
    · have noPoint : Text.StopsAt (· = '.') rest := by
        intro c digits equality
        exact decide_eq_false fun point => pointed ⟨digits, point ▸ equality⟩
      rw [splitFraction_of_stopsAt noPoint] at nonempty exponent
      exact .integral wholeDigits (by simpa using nonempty) exponent

/-- An unsigned numeral begins with a digit or its point. -/
theorem IsUnsigned.head (unsigned : IsUnsigned chars) :
    ∃ c rest, chars = c :: rest ∧ (c.isDigit || c = '.') = true := by
  cases unsigned with
  | @integral whole _ allDigits nonempty _ =>
      cases whole with
      | nil => exact absurd rfl nonempty
      | cons digit digits =>
          exact ⟨digit, _, rfl, by simp [allDigits digit List.mem_cons_self]⟩
  | @pointed whole _ _ allDigits _ _ _ =>
      cases whole with
      | nil => exact ⟨'.', _, rfl, rfl⟩
      | cons digit digits =>
          exact ⟨digit, _, rfl, by simp [allDigits digit List.mem_cons_self]⟩

theorem IsUnsigned.stopsAt (unsigned : IsUnsigned chars) : Text.StopsAt isSignMark chars := by
  obtain ⟨c, rest, rfl, opening⟩ := unsigned.head
  simp only [Bool.or_eq_true, decide_eq_true_eq] at opening
  rcases opening with digit | rfl
  · exact Text.stopsAt_cons (isSignMark_of_isDigit digit) rest
  · exact Text.stopsAt_cons rfl rest

theorem isNumeral_iff : IsNumeral chars ↔ IsUnsigned (splitSign chars).2 := by
  constructor
  · intro numeral
    obtain ⟨signed, unsigned⟩ := numeral
    rw [splitSign_append signed unsigned.stopsAt]
    exact unsigned
  · intro unsigned
    obtain ⟨sign, signed, divided⟩ := exists_sign chars
    rw [divided]
    exact .signed signed unsigned

theorem isSome_numeral?_iff : (numeral? chars).isSome = true ↔ IsNumeral chars := by
  rw [isNumeral_iff, isUnsigned_iff, ← isSome_suffix?_iff]
  unfold numeral?
  generalize splitSign chars = divided
  obtain ⟨negative, unsigned⟩ := divided
  simp only
  generalize unsigned.takeWhile Char.isDigit = whole
  generalize splitFraction (unsigned.dropWhile Char.isDigit) = divided
  obtain ⟨fraction, rest⟩ := divided
  by_cases empty : whole = [] ∧ fraction = []
  · simp [empty]
  · simp [empty, ← not_and_or]

end Grammar

section Readers

variable {chars : List Char}

/-- The reader takes the special names and the numerals. -/
theorem isSome_ofChars?_iff :
    (ofChars? chars).isSome = true ↔
      chars ∈ specialNames.map String.toList ∨ IsNumeral chars := by
  rw [← isSome_numeral?_iff]
  by_cases special : chars ∈ specialNames.map String.toList
  · simp only [special, true_or, iff_true]
    simp only [specialNames, List.map_cons, List.map_nil, List.mem_cons, List.not_mem_nil,
      or_false] at special
    rcases special with rfl | rfl | rfl <;> rfl
  · simp only [special, false_or]
    simp only [specialNames, List.map_cons, List.map_nil, List.mem_cons, List.not_mem_nil,
      or_false, not_or] at special
    obtain ⟨noInfinity, noNegative, noNan⟩ := special
    rw [ofChars?, if_neg noInfinity, if_neg noNegative, if_neg noNan, Option.isSome_map]

theorem isAlpha_of_isDigit {c : Char} (digit : c.isDigit = true) : c.isAlpha = false := by
  obtain ⟨lower, upper⟩ := Char.isDigit_iff_toNat.mp digit
  have lower : 48 ≤ c.toNat := lower
  have upper : c.toNat ≤ 57 := upper
  rw [← Bool.not_eq_true]
  intro letter
  simp [Char.isAlpha, Char.isUpper, Char.isLower, UInt32.le_iff_toNat_le] at letter
  omega

/-- A word is letters after its sign. -/
theorem IsWord.exists_letters (word : IsWord chars) :
    ∃ sign letters, IsSign sign ∧ letters ≠ [] ∧ (∀ c ∈ letters, c.isAlpha = true) ∧
      chars = sign ++ letters := by
  cases word with
  | @signed sign letters signed known =>
      have spelled : letters.map Char.toLower ≠ [] ∧
          (letters.map Char.toLower).all Char.isAlpha = true := by
        simp only [List.map_cons, List.map_nil, List.mem_cons, List.not_mem_nil,
          or_false] at known
        rcases known with same | same | same <;> rw [same] <;> decide
      obtain ⟨nonempty, lowered⟩ := spelled
      refine ⟨sign, letters, signed, mt List.map_eq_nil_iff.mpr nonempty, ?_, rfl⟩
      -- The case of a character does not tell whether it is a letter.
      intro c member
      have letter := List.all_eq_true.mp lowered _ (List.mem_map_of_mem member)
      rwa [Char.isAlpha_toLower_eq_isAlpha] at letter

/-- What the guard sees of a word is a letter. -/
theorem IsWord.not_opensNumeral (word : IsWord chars) : opensNumeral chars = false := by
  obtain ⟨sign, letters, signed, nonempty, allLetters, rfl⟩ := word.exists_letters
  cases letters with
  | nil => exact absurd rfl nonempty
  | cons letter rest =>
      have isLetter := allLetters letter List.mem_cons_self
      have bare : Text.StopsAt isSignMark (letter :: rest) := by
        refine Text.stopsAt_cons ?_ rest
        rw [← Bool.not_eq_true, isSignMark, Bool.or_eq_true, decide_eq_true_eq,
          decide_eq_true_eq]
        intro sign
        rcases sign with rfl | rfl <;> exact absurd isLetter (by decide)
      rw [opensNumeral, splitSign_append signed bare, ← Bool.not_eq_true, Bool.or_eq_true,
        decide_eq_true_eq]
      intro opening
      rcases opening with digit | rfl
      · exact absurd ((isAlpha_of_isDigit digit).symm.trans isLetter) (by decide)
      · exact absurd isLetter (by decide)

/-- The guard keeps numerals and turns words away. -/
theorem isNumeral_iff_guarded :
    IsNumeral chars ↔ opensNumeral chars = true ∧ (IsWord chars ∨ IsNumeral chars) := by
  constructor
  · intro numeral
    obtain ⟨c, rest, divided, opening⟩ := (isNumeral_iff.mp numeral).head
    refine ⟨?_, .inr numeral⟩
    rw [opensNumeral, divided]
    exact opening
  · intro given
    obtain ⟨opens, word | numeral⟩ := given
    · exact absurd (word.not_opensNumeral.symm.trans opens) (by decide)
    · exact numeral

/-- No word is a special name or a numeral. -/
theorem ofChars?_of_isWord (word : IsWord chars) : ofChars? chars = none := by
  rw [← Option.not_isSome_iff_eq_none, isSome_ofChars?_iff]
  intro spelled
  rcases spelled with special | numeral
  · have pointed : (specialNames.map String.toList).all (·.contains '.') = true := by decide
    have point := List.all_eq_true.mp pointed chars special
    obtain ⟨sign, letters, signed, -, allLetters, rfl⟩ := word.exists_letters
    rw [List.contains_iff_mem] at point
    rcases List.mem_append.mp point with inSign | inLetters
    · exact absurd (signed.mem_marks '.' inSign) (by decide)
    · exact absurd (allLetters '.' inLetters) (by decide)
  · have opens := (isNumeral_iff_guarded.mp numeral).1
    exact absurd (word.not_opensNumeral.symm.trans opens) (by decide)

end Readers

section Characters

variable {chars : List Char}

theorem IsExponent.digit_or_mark (exponent : IsExponent chars) :
    ∀ c ∈ chars, c.isDigit = true ∨ c ∈ ['+', '-', 'e', 'E'] := by
  cases exponent with
  | absent =>
      intro c member
      cases member
  | present marked signed _ allDigits =>
      intro c member
      rcases List.mem_cons.mp member with rfl | member
      · exact .inr (by simp [marked])
      · rcases List.mem_append.mp member with inSign | inDigits
        · have mark := signed.mem_marks c inSign
          exact .inr (List.mem_append_left ['e', 'E'] mark)
        · exact .inl (allDigits c inDigits)

/-- Digits and a point, and then an exponent. -/
theorem IsUnsigned.exists_exponent (unsigned : IsUnsigned chars) :
    ∃ front exponent, (∀ c ∈ front, c.isDigit = true ∨ c = '.') ∧ IsExponent exponent ∧
      chars = front ++ exponent := by
  cases unsigned with
  | integral allDigits _ exponent =>
      exact ⟨_, _, fun c member => .inl (allDigits c member), exponent, rfl⟩
  | @pointed whole fraction exponent wholeDigits fractionDigits _ isExponent =>
      refine ⟨whole ++ '.' :: fraction, exponent, ?_, isExponent, by simp⟩
      intro c member
      rcases List.mem_append.mp member with inWhole | rest
      · exact .inl (wholeDigits c inWhole)
      · rcases List.mem_cons.mp rest with point | inFraction
        · exact .inr point
        · exact .inl (fractionDigits c inFraction)

theorem IsUnsigned.digit_or_mark (unsigned : IsUnsigned chars) :
    ∀ c ∈ chars, c.isDigit = true ∨ c ∈ ['+', '-', 'e', 'E', '.'] := by
  obtain ⟨front, exponent, plain, isExponent, rfl⟩ := unsigned.exists_exponent
  intro c member
  rcases List.mem_append.mp member with inFront | inExponent
  · exact (plain c inFront).imp_right fun point => by simp [point]
  · exact (isExponent.digit_or_mark c inExponent).imp_right (List.mem_append_left ['.'])

theorem IsNumeral.digit_or_mark (numeral : IsNumeral chars) :
    ∀ c ∈ chars, c.isDigit = true ∨ c ∈ ['+', '-', 'e', 'E', '.'] := by
  obtain ⟨signed, unsigned⟩ := numeral
  intro c member
  rcases List.mem_append.mp member with inSign | inUnsigned
  · have mark := signed.mem_marks c inSign
    exact .inr (List.mem_append_left ['e', 'E', '.'] mark)
  · exact unsigned.digit_or_mark c inUnsigned

/-- A sign follows no character but the letter of an exponent. -/
def SignFollows (c next : Char) : Prop :=
  isSignMark next = true → c = 'e' ∨ c = 'E'

theorem isChain_of_bare (bare : ∀ c ∈ chars, isSignMark c = false) :
    chars.IsChain SignFollows := by
  apply List.Pairwise.isChain
  apply List.pairwise_of_forall_mem_list
  intro c _ next member sign
  rw [bare next member] at sign
  cases sign

theorem isChain_append
    {front back : List Char} (first : front.IsChain SignFollows)
    (second : back.IsChain SignFollows) (bare : Text.StopsAt isSignMark back) :
    (front ++ back).IsChain SignFollows := by
  refine List.isChain_append.mpr ⟨first, second, ?_⟩
  intro c _ next opening sign
  obtain ⟨tail, rfl⟩ := List.head?_eq_some_iff.mp opening
  rw [bare next tail rfl] at sign
  cases sign

theorem IsExponent.isChain (exponent : IsExponent chars) : chars.IsChain SignFollows := by
  cases exponent with
  | absent => exact .nil
  | @present letter sign digits marked signed _ allDigits =>
      have opening : (letter :: sign).IsChain SignFollows := by
        cases signed with
        | absent => exact .singleton letter
        | plus => exact List.isChain_pair.mpr fun _ => marked
        | minus => exact List.isChain_pair.mpr fun _ => marked
      exact isChain_append opening (isChain_of_bare allDigits.bare) allDigits.stopsAt

theorem IsUnsigned.isChain (unsigned : IsUnsigned chars) : chars.IsChain SignFollows := by
  obtain ⟨front, exponent, plain, isExponent, rfl⟩ := unsigned.exists_exponent
  refine isChain_append (isChain_of_bare ?_) isExponent.isChain (isExponent.stopsAt rfl rfl)
  intro c member
  rcases plain c member with digit | rfl
  · exact isSignMark_of_isDigit digit
  · rfl

theorem IsNumeral.isChain (numeral : IsNumeral chars) : chars.IsChain SignFollows := by
  obtain ⟨signed, unsigned⟩ := numeral
  refine isChain_append ?_ unsigned.isChain unsigned.stopsAt
  cases signed with
  | absent => exact .nil
  | plus => exact .singleton '+'
  | minus => exact .singleton '-'

end Characters

end EffectLisp.Number
