/-!
# Results that may be errors

What the parts of a computation that may fail came to, told from what the whole came to.
-/

namespace EffectLisp

theorem bind_eq_ok
    {ε α β : Type} {first : Except ε α} {next : α → Except ε β} {result : β}
    (bound : (first >>= next) = .ok result) :
    ∃ a, first = .ok a ∧ next a = .ok result := by
  cases first with
  | error error => cases bound
  | ok a => exact ⟨a, rfl, bound⟩

theorem bind_eq_error
    {ε α β : Type} {first : Except ε α} {next : α → Except ε β} {error : ε}
    (bound : (first >>= next) = .error error) :
    first = .error error ∨ ∃ a, first = .ok a ∧ next a = .error error := by
  cases first with
  | error other =>
      cases bound
      exact .inl rfl
  | ok a => exact .inr ⟨a, rfl, bound⟩

theorem mapError_eq_ok_iff
    {ε ε' α : Type} {result : Except ε α} {f : ε → ε'} {a : α} :
    result.mapError f = .ok a ↔ result = .ok a := by
  cases result with
  | error error => exact iff_of_false nofun nofun
  | ok b =>
      change Except.ok b = Except.ok a ↔ _
      rw [Except.ok.injEq, Except.ok.injEq]

theorem mapError_eq_error
    {ε ε' α : Type} {result : Except ε α} {f : ε → ε'} {error : ε'}
    (mapped : result.mapError f = .error error) :
    ∃ cause, result = .error cause ∧ error = f cause := by
  cases result with
  | error cause =>
      cases mapped
      exact ⟨cause, rfl, rfl⟩
  | ok a => cases mapped

theorem eq_ok_of_toOption
    {ε α : Type} {result : Except ε α} {a : α} (found : result.toOption = some a) :
    result = .ok a := by
  cases result with
  | error error => cases found
  | ok b => exact congrArg Except.ok (Option.some.inj found)

theorem mapError_bind
    {ε ε' α β : Type} (f : ε → ε') (x : Except ε α) (next : α → Except ε β) :
    (x >>= next).mapError f = x.mapError f >>= fun a => (next a).mapError f := by
  cases x <;> rfl

end EffectLisp
