/-!
# Outcomes of stateful routines

A routine returns a value or stops, and keeps its state either way.  The rules
take a sequence of steps apart at its first step, in both directions.
-/

namespace Outcome

variable {ε σ α β : Type} {first : EStateM ε σ α}
variable {next : α → EStateM ε σ β} {s s' : σ}

/-- A step that returned is left behind. -/
theorem bind_of_ok {a : α} (returned : first s = .ok a s') :
    (first >>= next) s = next a s' := by
  simp [bind, EStateM.bind, returned]

theorem bind_of_error {stop : ε} (stopped : first s = .error stop s') :
    (first >>= next) s = .error stop s' := by
  simp [bind, EStateM.bind, stopped]

/-- What returned in the end returned in between. -/
theorem bind_eq_ok {b : β} (returned : (first >>= next) s = .ok b s') :
    ∃ a s₁, first s = .ok a s₁ ∧ next a s₁ = .ok b s' := by
  cases step : first s with
  | ok a s₁ =>
      rw [bind_of_ok step] at returned
      exact ⟨a, s₁, rfl, returned⟩
  | error stop s₁ =>
      rw [bind_of_error step] at returned
      cases returned

/-- What stopped in the end stopped in one of the steps. -/
theorem bind_eq_error {stop : ε}
    (stopped : (first >>= next) s = .error stop s') :
    first s = .error stop s' ∨
      ∃ a s₁, first s = .ok a s₁ ∧ next a s₁ = .error stop s' := by
  cases step : first s with
  | ok a s₁ =>
      rw [bind_of_ok step] at stopped
      exact .inr ⟨a, s₁, rfl, stopped⟩
  | error stop s₁ =>
      rw [bind_of_error step] at stopped
      cases stopped
      exact .inl rfl

end Outcome
