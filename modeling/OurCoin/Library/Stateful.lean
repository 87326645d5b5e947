import OurCoin.Library.Raising

/-!
# Computations that raise and change a state

`Stateful ε σ α` is a method of an object with state `σ`: it may change the state, and then
return or raise. What it changed stays changed when it raises.

* `bind_apply` and the other laws of this form evaluate a `do` block line by line.
* `Keeps R x` says that whatever `x` does, the state before and the state after are
  related by `R`. For a relation that is reflexive and transitive it composes along a
  `do` block (`Keeps.bind`), so a fact that no line of a method breaks is shown line by line.
-/

set_option autoImplicit false

/-- A computation that changes a state and may raise. -/
abbrev Stateful (ε σ α : Type) : Type := ExceptT ε (StateM σ) α

namespace Stateful

open Raising

variable {ε σ α β : Type}

/-- Raise or return without touching the state. -/
def lift (x : Except ε α) : Stateful ε σ α := fun s => (x, s)

/-- Read the state. -/
def read (f : σ → α) : Stateful ε σ α := fun s => (.ok (f s), s)

/-- Change the state. -/
def update (f : σ → σ) : Stateful ε σ Unit := fun s => (.ok (), f s)

/-- `try: x except e: handler; raise e`. -/
def onError (x : Stateful ε σ α) (handler : σ → σ) : Stateful ε σ α := fun s =>
  match x s with
  | (.ok a, s) => (.ok a, s)
  | (.error e, s) => (.error e, handler s)

/-- `with contextlib.suppress(classes): x`. -/
def suppress (caught : ε → Bool) (x : Stateful ε σ Unit) : Stateful ε σ Unit := fun s =>
  match x s with
  | (.ok (), s) => (.ok (), s)
  | (.error e, s) => if caught e = true then (.ok (), s) else (.error e, s)

/-- `try: x except caught as e: return handler(e)`, followed by `next`. -/
def trying (x : Stateful ε σ α) (caught : ε → Bool) (handler : ε → Stateful ε σ β)
    (next : α → Stateful ε σ β) : Stateful ε σ β := fun s =>
  match x s with
  | (.ok a, s) => next a s
  | (.error e, s) => if caught e = true then handler e s else (.error e, s)

/-! ## Evaluation -/

theorem pure_apply (a : α) (s : σ) : (pure a : Stateful ε σ α) s = (.ok a, s) := rfl

theorem throw_apply (e : ε) (s : σ) : (throw e : Stateful ε σ α) s = (.error e, s) := rfl

theorem lift_apply (x : Except ε α) (s : σ) : (lift x : Stateful ε σ α) s = (x, s) := rfl

theorem read_apply (f : σ → α) (s : σ) : (read f : Stateful ε σ α) s = (.ok (f s), s) := rfl

theorem update_apply (f : σ → σ) (s : σ) : (update f : Stateful ε σ Unit) s = (.ok (), f s) := rfl

theorem bind_apply (x : Stateful ε σ α) (f : α → Stateful ε σ β) (s : σ) :
    (x >>= f) s =
      match x s with
      | (.ok a, after) => f a after
      | (.error e, after) => (.error e, after) := by
  change (ExceptT.bind x f) s = _
  cases outcome : x s with
  | mk result after =>
      cases result with
      | ok a =>
          simp only [ExceptT.bind, ExceptT.mk, bind, StateT.bind, outcome]
          rfl
      | error e =>
          simp only [ExceptT.bind, ExceptT.mk, bind, StateT.bind, outcome]
          rfl

/-- A line that returns. -/
theorem bind_of_ok {x : Stateful ε σ α} {f : α → Stateful ε σ β} {s after : σ} {a : α}
    (returned : x s = (.ok a, after)) : (x >>= f) s = f a after := by
  rw [bind_apply, returned]

/-- A line that raises. -/
theorem bind_of_error {x : Stateful ε σ α} {f : α → Stateful ε σ β} {s after : σ} {e : ε}
    (raised : x s = (.error e, after)) : (x >>= f) s = (.error e, after) := by
  rw [bind_apply, raised]

/-- A block whose last part always raises always raises. -/
theorem exists_error_bind {x : Stateful ε σ α} {f : α → Stateful ε σ β}
    (rest : ∀ a s, ∃ e, (f a s).1 = .error e) (s : σ) : ∃ e, ((x >>= f) s).1 = .error e := by
  rw [bind_apply]
  cases x s with
  | mk result after =>
      cases result with
      | ok a => exact rest a after
      | error e => exact ⟨e, rfl⟩

/-! ## What a computation keeps -/

/-- The state before and the state after are related, also when the computation raises. -/
def Keeps (R : σ → σ → Prop) (x : Stateful ε σ α) : Prop := ∀ s, R s (x s).2

namespace Keeps

variable {R : σ → σ → Prop}

theorem pure (refl : ∀ s, R s s) (a : α) : Keeps R (Pure.pure a : Stateful ε σ α) := refl

theorem throw (refl : ∀ s, R s s) (e : ε) : Keeps R (throw e : Stateful ε σ α) := refl

theorem lift (refl : ∀ s, R s s) (x : Except ε α) : Keeps R (Stateful.lift x : Stateful ε σ α) := refl

theorem read (refl : ∀ s, R s s) (f : σ → α) : Keeps R (Stateful.read f : Stateful ε σ α) := refl

/-- **Lines that keep a preorder keep it together.** -/
theorem bind (trans : ∀ s s' s'', R s s' → R s' s'' → R s s'') {x : Stateful ε σ α}
    {f : α → Stateful ε σ β} (first : Keeps R x) (next : ∀ a, Keeps R (f a)) :
    Keeps R (x >>= f) := by
  intro s
  have kept := first s
  rw [bind_apply]
  cases outcome : x s with
  | mk result after =>
      rw [outcome] at kept
      cases result with
      | ok a => exact trans _ _ _ kept (next a after)
      | error e => exact kept

theorem trying (trans : ∀ s s' s'', R s s' → R s' s'' → R s s'') {x : Stateful ε σ α}
    {caught : ε → Bool} {handler : ε → Stateful ε σ β} {next : α → Stateful ε σ β}
    (body : Keeps R x) (handled : ∀ e, Keeps R (handler e)) (rest : ∀ a, Keeps R (next a)) :
    Keeps R (x.trying caught handler next) := by
  intro s
  have kept := body s
  rw [Stateful.trying]
  cases outcome : x s with
  | mk result after =>
      rw [outcome] at kept
      cases result with
      | ok a => exact trans _ _ _ kept (rest a after)
      | error e =>
          dsimp only
          split
          · exact trans _ _ _ kept (handled e after)
          · exact kept

theorem suppress {caught : ε → Bool} {x : Stateful ε σ Unit} (body : Keeps R x) :
    Keeps R (x.suppress caught) := by
  intro s
  have kept := body s
  rw [Stateful.suppress]
  cases outcome : x s with
  | mk result after =>
      rw [outcome] at kept
      cases result with
      | ok a => exact kept
      | error e =>
          dsimp only
          split
          · exact kept
          · exact kept

end Keeps

end Stateful
