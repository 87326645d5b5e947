import Mathlib

/-!
# Runs of a step function

A system with a step function and a list of events. `after step s events count` is its state
after the first events, so a statement can speak about every moment of one run.

* `after_succ` and `after_succ_of_none` advance by one event.
* `after_induction`: what every step of the run preserves holds from some moment on.
* `after_invariant`: what every step preserves holds at every moment.
-/

set_option autoImplicit false

namespace Steps

variable {σ ε : Type} {step : σ → ε → σ} {s : σ} {events : List ε}

/-- The state after the first events of a run. -/
def after (step : σ → ε → σ) (s : σ) (events : List ε) (count : Nat) : σ :=
  (events.take count).foldl step s

theorem after_zero (step : σ → ε → σ) (s : σ) (events : List ε) : after step s events 0 = s := rfl

theorem after_succ {count : Nat} {event : ε} (next : events[count]? = some event) :
    after step s events (count + 1) = step (after step s events count) event := by
  rw [after, List.take_add_one, next, List.foldl_append]
  rfl

/-- After the last event nothing changes. -/
theorem after_succ_of_none {count : Nat} (none_left : events[count]? = none) :
    after step s events (count + 1) = after step s events count := by
  rw [after, List.take_add_one, none_left, after, Option.toList_none, List.append_nil]

/-- **The run lemma**: what every step preserves from some moment on holds from then on. -/
theorem after_induction {P : Nat → σ → Prop} {start : Nat} (init : P start (after step s events start))
    (kept : ∀ count event, start ≤ count → events[count]? = some event →
      P count (after step s events count) → P (count + 1) (step (after step s events count) event))
    (idle : ∀ count state, start ≤ count → P count state → P (count + 1) state) :
    ∀ count, start ≤ count → P count (after step s events count) := by
  intro count later
  induction count, later using Nat.le_induction with
  | base => exact init
  | succ count later ih =>
      cases next : events[count]? with
      | none =>
          rw [after_succ_of_none next]
          exact idle count _ later ih
      | some event =>
          rw [after_succ next]
          exact kept count event later next ih

/-- **What every step preserves holds at every moment.** -/
theorem after_invariant {P : σ → Prop} (init : P s) (kept : ∀ s event, P s → P (step s event))
    (events : List ε) (count : Nat) : P (after step s events count) := by
  apply @after_induction _ _ _ _ _ (fun _ => P) 0 init
  · exact fun _ event _ _ holds => kept _ event holds
  · exact fun _ _ _ holds => holds
  · exact Nat.zero_le count

end Steps
