/-!
Results that may be errors, taken apart. If a computation in steps has a result,
so has each of its steps; and whether it has one, and which, is settled by the same
of its steps, whatever the errors are.
-/

namespace ConstructorSynthesis

variable {ε α β : Type} {result : Except ε α} {b : β}

theorem exists_of_bind_eq_ok {f : α → Except ε β} (h : result >>= f = .ok b) :
    ∃ a, result = .ok a ∧ f a = .ok b := by
  cases result with
  | error e => cases h
  | ok a => exact ⟨a, rfl, h⟩

theorem exists_of_map_eq_ok {f : α → β} (h : result.map f = .ok b) :
    ∃ a, result = .ok a ∧ f a = b := by
  cases result with
  | error e => cases h
  | ok a => exact ⟨a, rfl, Except.ok.inj h⟩

@[simp]
theorem toOption_pure (a : α) : (pure a : Except ε α).toOption = some a := rfl

@[simp]
theorem toOption_throw (e : ε) : (throw e : Except ε α).toOption = none := rfl

theorem toOption_bind (result : Except ε α) (f : α → Except ε β) :
    (result >>= f).toOption = result.toOption.bind fun a => (f a).toOption := by
  cases result <;> rfl

end ConstructorSynthesis
