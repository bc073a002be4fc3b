import Projector.Base.Run

/-!
# Simulation

One system is simulated by another when each of its steps, from states and histories that are related, is
matched by a run of the other one to states and histories that are related again. `Simulation.run` is the
induction over runs. What the relation says of the two histories is what the systems have in common for an
observer; what it says of the two states carries the invariants of the second system over to the first.
-/

namespace Projector

variable {σ τ ι κ ο ω : Type*} {step : σ → ι → Option (σ × List ο)} {ok : σ → ι → Prop}
  {step' : τ → κ → Option (τ × List ω)} {ok' : τ → κ → Prop}

/-- Each step of the first system is matched by a run of the second one. -/
def Simulation (step : σ → ι → Option (σ × List ο)) (ok : σ → ι → Prop)
    (step' : τ → κ → Option (τ × List ω)) (ok' : τ → κ → Prop)
    (R : σ → List ο → τ → List ω → Prop) : Prop :=
  ∀ s h t h' i u o, R s h t h' → ok s i → step s i = some (u, o) →
    ∃ v o', Run step' ok' t o' v ∧ R u (h ++ o) v (h' ++ o')

/-- A run of the first system is matched by a run of the second one. -/
theorem Simulation.run {R : σ → List ο → τ → List ω → Prop}
    (sim : Simulation step ok step' ok' R) {s u : σ} {t : τ} {h : List ο} (start : R s [] t [])
    (r : Run step ok s h u) : ∃ v h', Run step' ok' t h' v ∧ R u h v h' := by
  induction r with
  | nil => exact ⟨t, [], .nil, start⟩
  | snoc i _ hok st ih =>
    obtain ⟨v, h', front, related⟩ := ih
    obtain ⟨w, o', back, related'⟩ := sim _ _ _ _ i _ _ related hok st
    exact ⟨w, h' ++ o', front.trans back, related'⟩

end Projector
