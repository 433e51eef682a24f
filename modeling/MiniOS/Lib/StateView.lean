import MiniOS.Lib.Outcome

/-!
# Routines seen through a view

A view relates a state to the part of it that callers reason about, and says
what of the rest a routine must keep.  `Computes` states in these terms what a
routine does; its rules follow the program, one for each way of putting
routines together.
-/

structure StateView (σ τ : Type) where
  Sees : σ → τ → Prop
  Keeps : σ → σ → Prop
  refl : ∀ s, Keeps s s
  trans : ∀ {s s' s''}, Keeps s s' → Keeps s' s'' → Keeps s s''

namespace StateView

variable {ε σ τ α β : Type} {view : StateView σ τ} {s s' : σ} {t u : τ}

/-- From `s` the routine returns `a`, and then the view is `t`. -/
def Computes (view : StateView σ τ) (s : σ) (routine : EStateM ε σ α) (a : α)
    (t : τ) : Prop :=
  ∃ s', routine s = .ok a s' ∧ view.Keeps s s' ∧ view.Sees s' t

namespace Computes

variable {first : EStateM ε σ α} {next : α → EStateM ε σ β} {a : α} {b : β}

theorem pure (sees : view.Sees s t) (a : α) :
    view.Computes s (pure a : EStateM ε σ α) a t :=
  ⟨s, rfl, view.refl s, sees⟩

/-- The rest starts in some state with the view that the first step left. -/
theorem bind (computes : view.Computes s first a t)
    (rest : ∀ s', view.Keeps s s' → view.Sees s' t →
      view.Computes s' (next a) b u) :
    view.Computes s (first >>= next) b u := by
  obtain ⟨s₁, returned, kept, sees⟩ := computes
  obtain ⟨s₂, returned', kept', sees'⟩ := rest s₁ kept sees
  refine ⟨s₂, ?_, view.trans kept kept', sees'⟩
  rw [Outcome.bind_of_ok returned]
  exact returned'

theorem get {next : σ → EStateM ε σ β}
    (rest : view.Computes s (next s) b u) :
    view.Computes s (MonadState.get >>= next) b u := rest

theorem modify {change : σ → σ} (kept : view.Keeps s (change s))
    (sees : view.Sees (change s) t) :
    view.Computes s (modify change : EStateM ε σ PUnit) ⟨⟩ t :=
  ⟨change s, rfl, kept, sees⟩

theorem of_returned (computes : view.Computes s first a t) {c : α}
    (returned : first s = .ok c s') :
    c = a ∧ view.Keeps s s' ∧ view.Sees s' t := by
  obtain ⟨s₁, returned', kept, sees⟩ := computes
  rw [returned] at returned'
  cases returned'
  exact ⟨rfl, kept, sees⟩

end Computes

end StateView
