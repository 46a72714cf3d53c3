/-!
# Where a class of characters ends

A run of characters of a class is taken off the front of a text whole if what
follows does not go on with the class.
-/

namespace EffectLisp.Text

/-- The text does not begin with a character of the class. -/
def StopsAt (p : Char → Bool) (rest : List Char) : Prop :=
  ∀ c tail, rest = c :: tail → p c = false

theorem stopsAt_nil (p : Char → Bool) : StopsAt p [] := by
  intro c tail equality
  cases equality

theorem stopsAt_cons {p : Char → Bool} {c : Char} (outside : p c = false)
    (tail : List Char) : StopsAt p (c :: tail) := by
  rintro _ _ ⟨⟩
  exact outside

theorem takeWhile_append_of_stopsAt
    {p : Char → Bool} {front rest : List Char}
    (inside : ∀ c ∈ front, p c = true) (stops : StopsAt p rest) :
    (front ++ rest).takeWhile p = front := by
  rw [List.takeWhile_append_of_pos inside]
  cases rest with
  | nil => simp
  | cons c tail => simp [stops c tail rfl]

theorem dropWhile_append_of_stopsAt
    {p : Char → Bool} {front rest : List Char}
    (inside : ∀ c ∈ front, p c = true) (stops : StopsAt p rest) :
    (front ++ rest).dropWhile p = rest := by
  rw [List.dropWhile_append_of_pos inside]
  cases rest with
  | nil => simp
  | cons c tail => simp [stops c tail rfl]

theorem stopsAt_dropWhile (p : Char → Bool) (chars : List Char) :
    StopsAt p (chars.dropWhile p) := by
  induction chars with
  | nil => exact stopsAt_nil p
  | cons c chars induction =>
      by_cases inside : p c = true
      · simpa [List.dropWhile_cons, inside] using induction
      · simpa [List.dropWhile_cons, inside] using
          stopsAt_cons (by simpa using inside) chars

end EffectLisp.Text
