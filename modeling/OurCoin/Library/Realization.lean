import OurCoin.Library.Stateful

/-!
# Methods that realize a pure computation

A pure computation says what a method returns or raises, and a method does it on a mutable
state. `Realizes good bad x y s` says that run from `s` the method `x` returns when `y` does,
with values and a state in the relation `good`, and raises the same exception when `y` does,
leaving a state with `bad`, which bounds what the unfinished method has changed.

The rules follow the lines of a method: what reads (`Realizes.read`), what writes
(`Realizes.update`), what only computes (`Realizes.lift`), one line after another
(`Realizes.bind`) and a loop with an accumulator (`Realizes.foldlM`).
-/

set_option autoImplicit false

namespace Stateful

open Raising

variable {ε σ α β γ δ : Type}

/-- The method `x`, run from `s`, returns or raises as the pure computation `y` does. -/
def Realizes (good : α → β → σ → Prop) (bad : σ → Prop) (x : Stateful ε σ α) (y : Except ε β)
    (s : σ) : Prop :=
  (∀ b, y = .ok b → ∃ a after, x s = (.ok a, after) ∧ good a b after) ∧
    ∀ e, y = .error e → ∃ after, x s = (.error e, after) ∧ bad after

namespace Realizes

variable {good : α → β → σ → Prop} {good' : γ → δ → σ → Prop} {bad : σ → Prop}
  {x : Stateful ε σ α} {y : Except ε β} {s : σ}

theorem of_ok {a : α} {b : β} {after : σ} (returned : x s = (.ok a, after)) (pureOk : y = .ok b)
    (related : good a b after) : Realizes good bad x y s := by
  constructor
  · intro b' same
    rw [pureOk, Except.ok.injEq] at same
    subst same
    exact ⟨a, after, returned, related⟩
  · intro e same
    rw [pureOk] at same
    cases same

theorem pure {a : α} {b : β} (related : good a b s) :
    Realizes good bad (Pure.pure a : Stateful ε σ α) (Pure.pure b : Except ε β) s :=
  of_ok (pure_apply a s) rfl related

/-- **Line after line.** -/
theorem bind {f : α → Stateful ε σ γ} {g : β → Except ε δ} (first : Realizes good bad x y s)
    (next : ∀ a b after, good a b after → Realizes good' bad (f a) (g b) after) :
    Realizes good' bad (x >>= f) (y >>= g) s := by
  cases outcome : y with
  | ok b =>
      obtain ⟨a, after, returned, related⟩ := first.1 b outcome
      rw [Realizes, bind_of_ok returned, ok_bind]
      exact next a b after related
  | error e =>
      obtain ⟨after, raised, kept⟩ := first.2 e outcome
      constructor
      · intro d same
        cases same
      · intro e' same
        cases same
        exact ⟨after, bind_of_error raised, kept⟩

/-- A line that only computes. -/
theorem lift {y : Except ε α} {f : α → Stateful ε σ γ} {g : α → Except ε δ} (kept : bad s)
    (next : ∀ a, y = .ok a → Realizes good' bad (f a) (g a) s) :
    Realizes good' bad (Stateful.lift y >>= f) (y >>= g) s := by
  cases outcome : y with
  | ok a =>
      rw [Realizes, bind_of_ok (lift_apply (.ok a) s), ok_bind]
      exact next a outcome
  | error e =>
      constructor
      · intro d same
        cases same
      · intro e' same
        cases same
        exact ⟨s, bind_of_error (lift_apply (.error e) s), kept⟩

/-- A method that only computes. -/
theorem of_lift {y : Except ε α} {good : α → α → σ → Prop} (kept : bad s)
    (related : ∀ a, y = .ok a → good a a s) : Realizes good bad (Stateful.lift y) y s := by
  constructor
  · intro a pureOk
    exact ⟨a, s, by rw [lift_apply, pureOk], related a pureOk⟩
  · intro e raised
    exact ⟨s, by rw [lift_apply, raised], kept⟩

/-- A line that reads the state. -/
theorem read {f : σ → α} {g : α → Stateful ε σ γ} {y : Except ε δ}
    (next : Realizes good' bad (g (f s)) y s) :
    Realizes good' bad (Stateful.read f >>= g) y s := by
  rw [Realizes, bind_of_ok (read_apply f s)]
  exact next

/-- A line that writes. -/
theorem update {f : σ → σ} {g : Unit → Stateful ε σ γ} {y : Except ε δ}
    (next : Realizes good' bad (g ()) y (f s)) :
    Realizes good' bad (Stateful.update f >>= g) y s := by
  rw [Realizes, bind_of_ok (update_apply f s)]
  exact next

/-- **A loop with an accumulator** realizes the pure loop when its rounds do. -/
theorem foldlM {ι : Type} {f : α → ι → Stateful ε σ α} {g : β → ι → Except ε β}
    (round : ∀ a b i s, good a b s → Realizes good bad (f a i) (g b i) s) :
    ∀ (items : List ι) {a : α} {b : β} {s : σ}, good a b s →
      Realizes good bad (items.foldlM f a) (items.foldlM g b) s
  | [], a, b, s, related => pure related
  | item :: rest, a, b, s, related => by
      rw [List.foldlM_cons, List.foldlM_cons]
      exact (round a b item s related).bind fun a' b' after related' => foldlM round rest related'

end Realizes

end Stateful
