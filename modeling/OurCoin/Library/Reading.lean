import OurCoin.Library.Raising

/-!
# Statements that each see their own moment

Outside a transaction, every statement sees the data that is committed when it runs. A
`Reading` is a sequence of such statements: it is given the data at every moment and the
number of its next statement, and returns how many statements it has run by then.

* `bind_eq_ok` and the other laws of this form evaluate a `do` block line by line.
* `Steady x plain` says that on data that nobody changes `x` is the plain function. It
  composes along a `do` block (`Steady.bind`).
-/

set_option autoImplicit false

/-- Statements that read, each at its own moment. -/
abbrev Reading (τ ε α : Type) : Type := ReaderT (Nat → τ) (StateT Nat (Except ε)) α

namespace Reading

open Raising

variable {τ ε α β : Type} {moments : Nat → τ} {index : Nat}

/-- Raise or return without reading. -/
def lift (x : Except ε α) : Reading τ ε α := fun _ index => do
  let a ← x
  return (a, index)

/-- One statement. -/
def select (read : τ → α) : Reading τ ε α := fun moments index =>
  .ok (read (moments index), index + 1)

/-- One statement, and what is computed from it. -/
def compute (read : τ → Except ε α) : Reading τ ε α := fun moments index => do
  let a ← read (moments index)
  return (a, index + 1)

/-! ## Evaluation -/

theorem pure_apply (a : α) : (pure a : Reading τ ε α) moments index = .ok (a, index) := rfl

theorem bind_apply (x : Reading τ ε α) (f : α → Reading τ ε β) :
    (x >>= f) moments index = x moments index >>= fun result => f result.1 moments result.2 := rfl

/-- The laws of success, line by line. -/
theorem bind_eq_ok {x : Reading τ ε α} {f : α → Reading τ ε β} {b : β} {last : Nat} :
    (x >>= f) moments index = .ok (b, last) ↔
      ∃ a next, x moments index = .ok (a, next) ∧ f a moments next = .ok (b, last) := by
  rw [bind_apply, Raising.bind_eq_ok]
  exact Prod.exists

theorem pure_eq_ok {a b : α} {next : Nat} :
    (pure a : Reading τ ε α) moments index = .ok (b, next) ↔ a = b ∧ index = next := by
  rw [pure_apply, Except.ok.injEq, Prod.mk.injEq]

theorem select_eq_ok {read : τ → α} {a : α} {next : Nat} :
    (select read : Reading τ ε α) moments index = .ok (a, next) ↔
      read (moments index) = a ∧ index + 1 = next := by
  rw [select, Except.ok.injEq, Prod.mk.injEq]

theorem lift_eq_ok {x : Except ε α} {a : α} {next : Nat} :
    lift x moments index = .ok (a, next) ↔ x = .ok a ∧ index = next := by
  simp only [lift, Raising.bind_eq_ok, Raising.pure_eq_ok, Prod.mk.injEq]
  constructor
  · rintro ⟨_, computed, rfl, rfl⟩
    exact ⟨computed, rfl⟩
  · rintro ⟨computed, rfl⟩
    exact ⟨a, computed, rfl, rfl⟩

theorem compute_eq_ok {read : τ → Except ε α} {a : α} {next : Nat} :
    compute read moments index = .ok (a, next) ↔ read (moments index) = .ok a ∧ index + 1 = next := by
  simp only [compute, Raising.bind_eq_ok, Raising.pure_eq_ok, Prod.mk.injEq]
  constructor
  · rintro ⟨_, computed, rfl, rfl⟩
    exact ⟨computed, rfl⟩
  · rintro ⟨computed, rfl⟩
    exact ⟨a, computed, rfl, rfl⟩

theorem select_bind (read : τ → α) (f : α → Reading τ ε β) :
    (select read >>= f) moments index = f (read (moments index)) moments (index + 1) := rfl

theorem lift_bind (x : Except ε α) (f : α → Reading τ ε β) :
    (lift x >>= f) moments index = x >>= fun a => f a moments index := by
  cases x <;> rfl

theorem compute_bind (read : τ → Except ε α) (f : α → Reading τ ε β) :
    (compute read >>= f) moments index =
      read (moments index) >>= fun a => f a moments (index + 1) := by
  rw [bind_apply, compute]
  cases read (moments index) <;> rfl

/-! ## Data that nobody changes -/

/-- On data that nobody changes, the statements compute what the plain function computes. -/
def Steady (x : Reading τ ε α) (plain : τ → Except ε α) : Prop :=
  ∀ data index, Prod.fst <$> x (fun _ => data) index = plain data

namespace Steady

variable {plain : τ → Except ε α}

theorem congr {plain' : τ → Except ε α} {x : Reading τ ε α} (steady : Steady x plain)
    (same : ∀ data, plain data = plain' data) : Steady x plain' :=
  fun data index => (steady data index).trans (same data)

theorem pure (a : α) : Steady (Pure.pure a : Reading τ ε α) fun _ => .ok a :=
  fun _ _ => rfl

theorem lift (x : Except ε α) : Steady (Reading.lift x : Reading τ ε α) fun _ => x := by
  intro data index
  cases x <;> rfl

theorem select (read : τ → α) : Steady (Reading.select read : Reading τ ε α) fun data =>
    .ok (read data) :=
  fun _ _ => rfl

theorem compute (read : τ → Except ε α) : Steady (Reading.compute read) read := by
  intro data index
  rw [Reading.compute]
  cases read data <;> rfl

/-- Statements in sequence. -/
theorem bind {x : Reading τ ε α} {f : α → Reading τ ε β} {next : α → τ → Except ε β}
    (first : Steady x plain) (rest : ∀ a, Steady (f a) (next a)) :
    Steady (x >>= f) fun data => plain data >>= fun a => next a data := by
  intro data index
  have one := first data index
  rw [bind_apply]
  dsimp only
  rw [← one]
  cases outcome : x (fun _ => data) index with
  | error e => rfl
  | ok result => exact rest result.1 data result.2

end Steady

end Reading
