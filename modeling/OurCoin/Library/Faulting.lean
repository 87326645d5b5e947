import OurCoin.Library.Raising
import OurCoin.Library.Transactions

/-!
# Statements among faults

`Allows allowed x` bounds the errors of a sequence of statements, whatever the connection is
and whichever faults it meets. It is `RaisesOnly` of the computations, with one more rule for
the statements: a fault raises the error that the statement gives for it.

`Tracks failure x` says what a fault can change: the statements do what they do without faults, or
they fail with that error. `focus` runs statements on a part of the data.
-/

set_option autoImplicit false

namespace Transactions

open Raising (RaisesOnly)

variable {τ ε α β : Type} {allowed : ε → Prop}

/-- Whatever the statements raise is allowed. -/
def Allows (allowed : ε → Prop) (x : Sql τ ε α) : Prop :=
  ∀ session e, (x session).1 = .error e → allowed e

namespace Allows

theorem pure (a : α) : Allows allowed (Pure.pure a : Sql τ ε α) := by
  intro session e raised
  cases raised

theorem lift {x : Except ε α} (only : RaisesOnly allowed x) :
    Allows allowed (Transactions.lift x : Sql τ ε α) :=
  fun _ e raised => only e raised

/-- Statements in sequence. -/
theorem bind {x : Sql τ ε α} {f : α → Sql τ ε β} (first : Allows allowed x)
    (next : ∀ a, Allows allowed (f a)) : Allows allowed (x >>= f) := by
  intro session e raised
  rw [bind_apply] at raised
  cases outcome : x session with
  | mk result after =>
      rw [outcome] at raised
      cases result with
      | ok a => exact next a after e raised
      | error e' =>
          cases raised
          exact first session e (by rw [outcome])

/-- What was computed before statements is known to them. -/
theorem lift_bind {x : Except ε α} {f : α → Sql τ ε β} (only : RaisesOnly allowed x)
    (next : ∀ a, x = .ok a → Allows allowed (f a)) : Allows allowed (Transactions.lift x >>= f) := by
  intro session e raised
  rw [bind_apply, Transactions.lift] at raised
  cases computed : x with
  | ok a =>
      rw [computed] at raised
      exact next a computed session e raised
  | error e' =>
      rw [computed] at raised
      cases raised
      exact only e computed

/-- A statement raises its own errors, or the one for a fault. -/
theorem meetFault {failure : ε} {statement : Connection τ → Except ε α × Connection τ}
    (fails : allowed failure)
    (only : ∀ connection e, (statement connection).1 = .error e → allowed e) :
    Allows allowed (Transactions.meetFault failure statement) := by
  intro session e raised
  rw [Transactions.meetFault] at raised
  dsimp only at raised
  split at raised
  · exact only _ e raised
  · cases raised
    exact fails
  · cases raised
    exact fails

theorem execute {failure : ε} {statement : τ → Except ε (α × τ)} (fails : allowed failure)
    (only : ∀ data, RaisesOnly allowed (statement data)) :
    Allows allowed (Transactions.execute failure statement) := by
  apply meetFault fails
  intro connection e raised
  split at raised
  · split at raised
    · cases raised
    · rename_i _ e' outcome
      cases raised
      exact only _ e outcome
  · split at raised
    · cases raised
    · rename_i _ e' outcome
      cases raised
      exact only _ e outcome

theorem query {failure : ε} {read : τ → α} (fails : allowed failure) :
    Allows allowed (Transactions.query failure read) :=
  execute fails fun _ => .of_ok rfl

theorem begin {failure : ε} (fails : allowed failure) :
    Allows allowed (Transactions.begin failure : Sql τ ε Unit) := by
  apply meetFault fails
  intro connection e raised
  split at raised
  · cases raised
    exact fails
  · cases raised

theorem commit {failure : ε} (fails : allowed failure) :
    Allows allowed (Transactions.commit failure : Sql τ ε Unit) := by
  apply meetFault fails
  intro connection e raised
  split at raised
  · cases raised
  · cases raised
    exact fails

/-- A transaction raises translated errors. -/
theorem rollingBack {translate : ε → ε} {body : Sql τ ε α}
    (only : Allows (fun e => allowed (translate e)) body) :
    Allows allowed (Transactions.rollingBack translate body) := by
  intro session e raised
  rw [Transactions.rollingBack] at raised
  cases outcome : body session with
  | mk result after =>
      rw [outcome] at raised
      cases result with
      | ok a => cases raised
      | error e' =>
          cases raised
          exact only session e' (by rw [outcome])

end Allows

/-! ## What faults change -/

/-- Statements do what they do without faults, or they fail with the error of a fault. -/
structure Tracks (failure : ε) (x : Sql τ ε α) : Prop where
  no_faults : ∀ connection, (x ⟨connection, []⟩).2.faults = []
  agrees : ∀ session, (x session).1 = .error failure ∨
    (x session).1 = (x ⟨session.connection, []⟩).1 ∧
      (x session).2.connection = (x ⟨session.connection, []⟩).2.connection

namespace Tracks

variable {failure : ε}

theorem pure (a : α) : Tracks failure (Pure.pure a : Sql τ ε α) :=
  ⟨fun _ => rfl, fun _ => .inr ⟨rfl, rfl⟩⟩

theorem lift (x : Except ε α) : Tracks failure (Transactions.lift x : Sql τ ε α) :=
  ⟨fun _ => rfl, fun _ => .inr ⟨rfl, rfl⟩⟩

/-- Statements in sequence. -/
theorem bind {x : Sql τ ε α} {f : α → Sql τ ε β} (first : Tracks failure x)
    (next : ∀ a, Tracks failure (f a)) : Tracks failure (x >>= f) := by
  constructor
  · intro connection
    have rest := first.no_faults connection
    rw [bind_apply]
    cases outcome : x ⟨connection, []⟩ with
    | mk result after =>
        obtain ⟨connection', faults⟩ := after
        rw [outcome] at rest
        obtain rfl : faults = [] := rest
        cases result with
        | error e => rfl
        | ok a => exact (next a).no_faults connection'
  · intro session
    have rest := first.no_faults session.connection
    have agreed := first.agrees session
    rw [bind_apply, bind_apply]
    cases outcome : x session with
    | mk result after =>
        cases plain : x ⟨session.connection, []⟩ with
        | mk result' after' =>
            obtain ⟨connection', faults⟩ := after'
            rw [plain] at rest
            rw [outcome, plain] at agreed
            obtain rfl : faults = [] := rest
            rcases agreed with failed | ⟨sameResult, sameConnection⟩
            · obtain rfl : result = .error failure := failed
              exact .inl rfl
            · obtain rfl : result = result' := sameResult
              obtain rfl : after.connection = connection' := sameConnection
              cases result with
              | error e => exact .inr ⟨rfl, rfl⟩
              | ok a => exact (next a).agrees after

theorem meetFault (statement : Connection τ → Except ε α × Connection τ) :
    Tracks failure (Transactions.meetFault failure statement) := by
  constructor
  · intro connection
    rfl
  · intro session
    rw [Transactions.meetFault]
    dsimp only
    cases session.faults.head?.getD .none with
    | none => exact .inr ⟨rfl, rfl⟩
    | fails => exact .inl rfl
    | rollsBack => exact .inl rfl

theorem execute (statement : τ → Except ε (α × τ)) :
    Tracks failure (Transactions.execute failure statement) := meetFault _

theorem begin : Tracks failure (Transactions.begin failure : Sql τ ε Unit) := meetFault _

theorem commit : Tracks failure (Transactions.commit failure : Sql τ ε Unit) := meetFault _

theorem rollingBack {translate : ε → ε} {body : Sql τ ε α} (tracks : Tracks failure body) :
    Tracks (translate failure) (Transactions.rollingBack translate body) := by
  constructor
  · intro connection
    have rest := tracks.no_faults connection
    rw [Transactions.rollingBack]
    cases outcome : body ⟨connection, []⟩ with
    | mk result after =>
        rw [outcome] at rest
        cases result with
        | error e => exact rest
        | ok a => exact rest
  · intro session
    have agreed := tracks.agrees session
    rw [Transactions.rollingBack, Transactions.rollingBack]
    cases outcome : body session with
    | mk result after =>
        cases plain : body ⟨session.connection, []⟩ with
        | mk result' after' =>
            rw [outcome, plain] at agreed
            rcases agreed with failed | ⟨sameResult, sameConnection⟩
            · obtain rfl : result = .error failure := failed
              exact .inl rfl
            · obtain rfl : result = result' := sameResult
              cases result with
              | error e => exact .inr ⟨rfl, congrArg (fun c => { c with working := none })
                  sameConnection⟩
              | ok a => exact .inr ⟨rfl, sameConnection⟩

end Tracks

/-! ## A part of the data -/

variable {σ : Type}

/-- Statements on a part of the data. They neither begin nor end a transaction. -/
def focus (get : σ → τ) (put : τ → σ → σ) (x : Sql τ ε α) : Sql σ ε α := fun session =>
  let whole := session.connection
  let (result, after) := x ⟨⟨get whole.committed, whole.working.map get⟩, session.faults⟩
  (result, ⟨⟨put after.connection.committed whole.committed,
    after.connection.working.map fun part => put part (whole.working.getD whole.committed)⟩,
    after.faults⟩)

theorem Tracks.focus {failure : ε} {x : Sql τ ε α} (tracks : Tracks failure x) (get : σ → τ)
    (put : τ → σ → σ) : Tracks failure (focus get put x) := by
  constructor
  · intro connection
    exact tracks.no_faults _
  · intro session
    rcases tracks.agrees ⟨⟨get session.connection.committed, session.connection.working.map get⟩,
      session.faults⟩ with failed | ⟨sameResult, sameConnection⟩
    · exact .inl failed
    · let whole := fun part : Connection τ =>
        (⟨put part.committed session.connection.committed, part.working.map fun data =>
          put data (session.connection.working.getD session.connection.committed)⟩ : Connection σ)
      exact .inr ⟨sameResult, congrArg whole sameConnection⟩

theorem focus_of_eq {x : Sql τ ε α} {get : σ → τ} {put : τ → σ → σ} {session : Session σ}
    {result : Except ε α} {after : Session τ}
    (outcome : x ⟨⟨get session.connection.committed, session.connection.working.map get⟩,
      session.faults⟩ = (result, after)) :
    focus get put x session = (result,
      ⟨⟨put after.connection.committed session.connection.committed,
        after.connection.working.map fun part =>
          put part (session.connection.working.getD session.connection.committed)⟩,
        after.faults⟩) := by
  simp only [focus, outcome]

/-- A part of the data is worked on inside the transaction. -/
theorem Inside.focus {x : Sql τ ε α} (inside : Inside x) {get : σ → τ} {put : τ → σ → σ}
    (same : ∀ whole, put (get whole) whole = whole) : Inside (focus get put x) := by
  intro session working isOpen _
  obtain ⟨kept, success⟩ := inside
    ⟨⟨get session.connection.committed, session.connection.working.map get⟩, session.faults⟩
    (get working) (by rw [isOpen, Option.map_some]) trivial
  cases outcome : x ⟨⟨get session.connection.committed, session.connection.working.map get⟩,
      session.faults⟩ with
  | mk result after =>
      rw [outcome] at kept success
      rw [focus_of_eq outcome]
      refine ⟨?_, fun a returned => ?_⟩
      · dsimp only at kept ⊢
        rw [kept, same]
      · obtain ⟨working', stillOpen, -⟩ := success a returned
        refine ⟨put working' working, ?_, trivial⟩
        dsimp only at stillOpen ⊢
        rw [stillOpen, isOpen]
        rfl

end Transactions
