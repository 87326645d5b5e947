import Mathlib

/-!
# Computations that raise

A sequential program that may raise is a value of `Except ε α`. This module gives
the few shapes such programs are written in and one inversion law for each of
them. The laws are simp lemmas, so `simp` turns the success of a whole `do` block
into the conjunction of what each of its lines requires.

* `raiseIf bad e` is the guard `if bad: raise e` (`raiseIf_eq_ok`).
* `rethrow translate x` is `try: x except e: raise translate(e)`
  (`rethrow_eq_ok`).
* `bind_eq_ok` takes a sequence apart, and `mapM_eq_ok` a loop that collects
  results.
* `foldlM_invariant` is the rule for a loop with an accumulator: what one round
  keeps, the loop keeps.
* `Simulates R x y` relates two computations: when the first succeeds, the second
  succeeds with a related result. It composes along sequences and loops.

`Outcome ε σ α` is a method call that may raise and may change the object it is
called on before it raises.
-/

set_option autoImplicit false

namespace Raising

universe u v w

variable {ε : Type u} {α : Type v} {β : Type v}

/-- The guard `if bad: raise e`. -/
def raiseIf (bad : Prop) [Decidable bad] (e : ε) : Except ε Unit :=
  if bad then .error e else .ok ()

/-- `try: x except e: raise translate(e) from e`. -/
def rethrow (translate : ε → ε) (x : Except ε α) : Except ε α :=
  match x with
  | .ok a => .ok a
  | .error e => .error (translate e)

/-! ## Inversion -/

@[simp] theorem raiseIf_eq_ok {bad : Prop} [Decidable bad] {e : ε} {u : Unit} :
    raiseIf bad e = .ok u ↔ ¬ bad := by
  unfold raiseIf
  split <;> simp_all

@[simp] theorem raiseIf_eq_error {bad : Prop} [Decidable bad] {e e' : ε} :
    raiseIf bad e = .error e' ↔ bad ∧ e = e' := by
  unfold raiseIf
  split <;> simp_all

@[simp] theorem rethrow_eq_ok {translate : ε → ε} {x : Except ε α} {a : α} :
    rethrow translate x = .ok a ↔ x = .ok a := by
  cases x <;> simp [rethrow]

@[simp] theorem bind_eq_ok {x : Except ε α} {f : α → Except ε β} {b : β} :
    (x >>= f) = .ok b ↔ ∃ a, x = .ok a ∧ f a = .ok b := by
  cases x <;> simp [bind, Except.bind]

@[simp] theorem pure_eq_ok {a b : α} : (pure a : Except ε α) = .ok b ↔ a = b := by
  simp [pure, Except.pure]

@[simp] theorem throw_ne_ok {e : ε} {a : α} : (throw e : Except ε α) ≠ .ok a := by
  simp [throw, throwThe, MonadExceptOf.throw]

@[simp] theorem map_eq_ok {x : Except ε α} {f : α → β} {b : β} :
    f <$> x = .ok b ↔ ∃ a, x = .ok a ∧ f a = b := by
  cases x <;> simp [Functor.map, Except.map]

theorem map_eq_error {x : Except ε α} {f : α → β} {e : ε} : x.map f = .error e ↔ x = .error e := by
  cases x <;> simp [Except.map]

theorem ok_bind {a : α} {f : α → Except ε β} : ((.ok a : Except ε α) >>= f) = f a := rfl

/-! ## Loops -/

/-- A loop that collects one result per element succeeds exactly when every
round succeeds. -/
theorem mapM_eq_ok {γ : Type w} {f : γ → Except ε α} :
    ∀ {xs : List γ} {ys : List α}, xs.mapM f = .ok ys ↔ List.Forall₂ (fun x y => f x = .ok y) xs ys
  | [], ys => by simp
  | x :: xs, ys => by
      rw [List.mapM_cons, bind_eq_ok]
      constructor
      · rintro ⟨y, hy, rest⟩
        obtain ⟨ys', hys, eq⟩ := bind_eq_ok.mp rest
        rw [pure_eq_ok] at eq
        subst eq
        exact .cons hy (mapM_eq_ok.mp hys)
      · intro all
        cases all with
        | cons hy rest => exact ⟨_, hy, bind_eq_ok.mpr ⟨_, mapM_eq_ok.mpr rest, pure_eq_ok.mpr rfl⟩⟩

/-- The results of a loop are the results of its rounds. -/
theorem mem_of_mapM_eq_ok {γ : Type w} {f : γ → Except ε α} {xs : List γ} {ys : List α}
    (run : xs.mapM f = .ok ys) {y : α} : y ∈ ys ↔ ∃ x ∈ xs, f x = .ok y := by
  rw [mapM_eq_ok] at run
  induction run with
  | nil => simp
  | @cons x first xs ys one rest ih =>
      rw [List.mem_cons, ih]
      constructor
      · rintro (rfl | ⟨x', member, found⟩)
        · exact ⟨x, List.mem_cons_self, one⟩
        · exact ⟨x', List.mem_cons_of_mem _ member, found⟩
      · rintro ⟨x', member, found⟩
        rcases List.mem_cons.mp member with rfl | later
        · rw [one] at found
          exact .inl (Except.ok.inj found).symm
        · exact .inr ⟨x', later, found⟩

/-- Every element of a loop that succeeded has a result. -/
theorem exists_of_mapM_eq_ok {γ : Type w} {f : γ → Except ε α} {xs : List γ} {ys : List α}
    (run : xs.mapM f = .ok ys) : ∀ x ∈ xs, ∃ y, f x = .ok y ∧ y ∈ ys := by
  rw [mapM_eq_ok] at run
  induction run with
  | nil => simp
  | @cons x y xs ys one rest ih =>
      intro x' member
      rcases List.mem_cons.mp member with rfl | later
      · exact ⟨y, one, List.mem_cons_self⟩
      · obtain ⟨y', found, inRest⟩ := ih x' later
        exact ⟨y', found, List.mem_cons_of_mem _ inRest⟩

/-- A loop succeeds when every round does. -/
theorem exists_mapM_eq_ok {γ : Type w} {f : γ → Except ε α} : ∀ {xs : List γ},
    (∀ x ∈ xs, ∃ y, f x = .ok y) → ∃ ys, xs.mapM f = .ok ys
  | [], _ => ⟨[], rfl⟩
  | x :: xs, each => by
      obtain ⟨y, one⟩ := each x List.mem_cons_self
      obtain ⟨ys, rest⟩ := exists_mapM_eq_ok fun x' member => each x' (List.mem_cons_of_mem x member)
      refine ⟨y :: ys, ?_⟩
      rw [mapM_eq_ok] at rest ⊢
      exact .cons one rest

/-- A loop whose rounds are known to succeed maps its list. -/
theorem mapM_eq_map {γ : Type w} {f : γ → Except ε α} {g : γ → α} {xs : List γ}
    (each : ∀ x ∈ xs, f x = .ok (g x)) : xs.mapM f = .ok (xs.map g) := by
  rw [mapM_eq_ok, List.forall₂_map_right_iff, List.forall₂_same]
  exact each

/-- A loop over the same list whose results follow from those of another one. -/
theorem mapM_of_mapM {γ : Type w} {β : Type v} {f : γ → Except ε α} {g : γ → Except ε β} {h : α → β}
    {xs : List γ} {ys : List α} (run : xs.mapM f = .ok ys)
    (each : ∀ x y, f x = .ok y → g x = .ok (h y)) : xs.mapM g = .ok (ys.map h) := by
  rw [mapM_eq_ok] at run ⊢
  rw [List.forall₂_map_right_iff]
  exact run.imp each

/-- The results of a loop are a map of its list when each round returns the image of its
element. -/
theorem eq_map_of_mapM_eq_ok {γ : Type w} {f : γ → Except ε α} {g : γ → α} {xs : List γ}
    {ys : List α} (run : xs.mapM f = .ok ys) (each : ∀ x y, f x = .ok y → y = g x) :
    ys = xs.map g := by
  rw [mapM_eq_ok] at run
  induction run with
  | nil => rfl
  | cons one _ ih => rw [List.map_cons, each _ _ one, ih]

/-- Loops with the same results ran over the same elements, when a result determines its
element. -/
theorem eq_of_mapM_eq {γ : Type w} {f : γ → Except ε α} : ∀ {xs ys : List γ} {zs : List α},
    (∀ x ∈ xs, ∀ y ∈ ys, ∀ z, f x = .ok z → f y = .ok z → x = y) →
      xs.mapM f = .ok zs → ys.mapM f = .ok zs → xs = ys := by
  intro xs ys zs determined run run'
  rw [mapM_eq_ok] at run run'
  induction run generalizing ys with
  | nil =>
      cases run'
      rfl
  | @cons x z xs zs one rest ih =>
      cases run' with
      | @cons y _ ys _ one' rest' =>
          rw [determined x List.mem_cons_self y List.mem_cons_self z one one',
            ih (fun x' xMem y' yMem => determined x' (List.mem_cons_of_mem _ xMem) y'
              (List.mem_cons_of_mem _ yMem)) rest']

/-- **The rule for a loop with an accumulator.** A relation between the elements
already consumed and the accumulator that one round keeps holds after the loop. -/
theorem foldlM_invariant {γ : Type w} {f : α → γ → Except ε α} {holds : List γ → α → Prop}
    (step : ∀ done acc x acc', holds done acc → f acc x = .ok acc' → holds (done ++ [x]) acc')
    {xs : List γ} {init final : α} (start : holds [] init) (run : xs.foldlM f init = .ok final) :
    holds xs final := by
  have general : ∀ (xs : List γ) (done : List γ) (acc : α), holds done acc →
      xs.foldlM f acc = .ok final → holds (done ++ xs) final := by
    intro xs
    induction xs with
    | nil =>
        intro done acc held run
        have eq : acc = final := by simpa using run
        simpa [← eq] using held
    | cons x xs ih =>
        intro done acc held run
        rw [List.foldlM_cons, bind_eq_ok] at run
        obtain ⟨acc', one, rest⟩ := run
        simpa using ih (done ++ [x]) acc' (step done acc x acc' held one) rest
  simpa using general xs [] init start run

/-- A loop over a list with one more element at its end is the loop followed by
one round. -/
theorem foldlM_concat_eq_ok {γ : Type w} {f : α → γ → Except ε α} {xs : List γ} {x : γ}
    {init final : α} :
    (xs ++ [x]).foldlM f init = .ok final ↔
      ∃ acc, xs.foldlM f init = .ok acc ∧ f acc x = .ok final := by
  rw [List.foldlM_append, bind_eq_ok]
  simp

/-! ## What may be raised -/

/-- Whatever the computation raises is allowed. -/
def RaisesOnly (allowed : ε → Prop) (x : Except ε α) : Prop := ∀ e, x = .error e → allowed e

namespace RaisesOnly

variable {allowed : ε → Prop}

theorem of_ok {x : Except ε α} {a : α} (succeeds : x = .ok a) : RaisesOnly allowed x := by
  intro e raised
  rw [succeeds] at raised
  cases raised

theorem pure (a : α) : RaisesOnly allowed (Pure.pure a : Except ε α) := of_ok rfl

theorem throw {e : ε} (fine : allowed e) : RaisesOnly allowed (throw e : Except ε α) := by
  intro e' raised
  rw [← Except.error.inj raised]
  exact fine

theorem mono {allowed' : ε → Prop} {x : Except ε α} (only : RaisesOnly allowed x)
    (weaker : ∀ e, allowed e → allowed' e) : RaisesOnly allowed' x :=
  fun e raised => weaker e (only e raised)

theorem raiseIf {bad : Prop} [Decidable bad] {e : ε} (fine : allowed e) :
    RaisesOnly allowed (Raising.raiseIf bad e) := by
  intro e' raised
  rw [raiseIf_eq_error] at raised
  exact raised.2 ▸ fine

theorem rethrow {translate : ε → ε} {x : Except ε α}
    (fine : RaisesOnly (fun e => allowed (translate e)) x) :
    RaisesOnly allowed (Raising.rethrow translate x) := by
  intro e raised
  cases x with
  | ok a => cases raised
  | error e' =>
      rw [← Except.error.inj raised]
      exact fine e' rfl

theorem bind {x : Except ε α} {f : α → Except ε β} (first : RaisesOnly allowed x)
    (next : ∀ a, x = .ok a → RaisesOnly allowed (f a)) : RaisesOnly allowed (x >>= f) := by
  intro e raised
  cases x with
  | ok a => exact next a rfl e raised
  | error e' =>
      rw [← Except.error.inj raised]
      exact first e' rfl

/-- A loop raises what its rounds raise. -/
theorem mapM {γ : Type w} {f : γ → Except ε α} : ∀ {xs : List γ},
    (∀ x ∈ xs, RaisesOnly allowed (f x)) → RaisesOnly allowed (xs.mapM f)
  | [], _ => pure []
  | x :: xs, each => by
      rw [List.mapM_cons]
      apply bind (each x List.mem_cons_self)
      intro y _
      apply bind (mapM fun x' member => each x' (List.mem_cons_of_mem x member))
      intro ys _
      exact pure _

end RaisesOnly

/-! ## Simulation -/

/-- Whenever the first computation succeeds, so does the second, with a related
result. -/
def Simulates {δ : Type w} (R : α → δ → Prop) (x : Except ε α) (y : Except ε δ) : Prop :=
  ∀ a, x = .ok a → ∃ b, y = .ok b ∧ R a b

namespace Simulates

variable {α' β' : Type v} {R : α → α' → Prop} {S : β → β' → Prop}

/-- Related first steps and related continuations give related sequences. -/
theorem bind {x : Except ε α} {y : Except ε α'} {f : α → Except ε β} {g : α' → Except ε β'}
    (first : Simulates R x y) (next : ∀ a a', R a a' → Simulates S (f a) (g a')) :
    Simulates S (x >>= f) (y >>= g) := by
  intro b run
  obtain ⟨a, runFirst, runNext⟩ := bind_eq_ok.mp run
  obtain ⟨a', runFirst', related⟩ := first a runFirst
  obtain ⟨b', runNext', relatedNext⟩ := next a a' related b runNext
  exact ⟨b', bind_eq_ok.mpr ⟨a', runFirst', runNext'⟩, relatedNext⟩

theorem pure {a : α} {a' : α'} (related : R a a') :
    Simulates (ε := ε) R (Pure.pure a) (Pure.pure a') := by
  intro b run
  rw [pure_eq_ok] at run
  exact ⟨a', rfl, run ▸ related⟩

/-- Related rounds give related loops. -/
theorem foldlM {γ : Type w} {f : α → γ → Except ε α} {g : α' → γ → Except ε α'}
    (round : ∀ a a' x, R a a' → Simulates R (f a x) (g a' x)) :
    ∀ (xs : List γ) {a : α} {a' : α'}, R a a' → Simulates R (xs.foldlM f a) (xs.foldlM g a')
  | [], _, _, related => pure related
  | x :: xs, _, _, related => by
      rw [List.foldlM_cons, List.foldlM_cons]
      exact bind (round _ _ x related) fun _ _ next => foldlM round xs next

end Simulates

end Raising

/-! ## Methods that change their object -/

/-- A method call: its result, and the object after the call. The object is there
also when the call raises. -/
abbrev Outcome (ε σ α : Type) : Type := Except ε α × σ
