import Mathlib.Logic.Relation

/-!
# Forward simulation

A step relation is simulated by another one through a relation between their states when every
step is matched by a step of the other system. `Simulation.run` carries this over to runs.

The relation need not hold for ever: it may break down, as a protocol does that relies on a
hash function when a collision turns up. Then it is required to stay broken, and a run ends in
related states or is broken.
-/

set_option autoImplicit false

universe u v

variable {σ : Type u} {τ : Type v}

/-- Every step between states that are not broken is matched. -/
structure Simulation (Step : σ → σ → Prop) (Abstract : τ → τ → Prop) (R : σ → τ → Prop)
    (Inv Broken : σ → Prop) : Prop where
  keeps : ∀ {before after : σ}, Step before after → Inv before → Inv after
  stays : ∀ {before after : σ}, Step before after → Inv before → Broken before → Broken after
  matched : ∀ {before after : σ} {abstract : τ}, Step before after → R before abstract →
    ¬ Broken before → ∃ next, Abstract abstract next ∧ R after next

namespace Simulation

variable {Step : σ → σ → Prop} {Abstract : τ → τ → Prop} {R : σ → τ → Prop} {Inv Broken : σ → Prop}
  {start last : σ} {abstract : τ}

/-- **A run is matched by a run**, or it is broken. -/
theorem run (simulation : Simulation Step Abstract R Inv Broken)
    (steps : Relation.ReflTransGen Step start last) (inv : Inv start)
    (related : R start abstract) :
    Inv last ∧ (Broken last ∨ ∃ next, Relation.ReflTransGen Abstract abstract next ∧ R last next) := by
  induction steps with
  | refl => exact ⟨inv, .inr ⟨abstract, .refl, related⟩⟩
  | @tail middle _ _ step ih =>
      obtain ⟨inv', ih⟩ := ih
      refine ⟨simulation.keeps step inv', ?_⟩
      rcases ih with broken | ⟨next, steps, related'⟩
      · exact .inl (simulation.stays step inv' broken)
      · by_cases broken : Broken middle
        · exact .inl (simulation.stays step inv' broken)
        · obtain ⟨next', moved, related''⟩ := simulation.matched step related' broken
          exact .inr ⟨next', steps.tail moved, related''⟩

end Simulation
