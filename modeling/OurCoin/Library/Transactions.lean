import OurCoin.Library.Raising

/-!
# Database transactions whose statements may fail

A connection holds the committed data and, while a transaction is open, the working
data of that transaction. Every statement may be hit by a fault: it may fail and leave
the transaction open, or fail and roll the transaction back. Faults come from a list,
so a theorem about every list is a theorem about a failure at every statement. Commit
and rollback are atomic.

* `Within P x Q` is the rule for statements inside an open transaction: whatever
  happens, the committed data stays as it is, and when `x` succeeds on working data
  with `P` it leaves working data with `Q`.
* `Inside x` is the part of it that says nothing about the data.
* `Leads before x after` is the rule for statements on known working data.
* `Closing P x Q` is the same rule for statements that end with the commit.
* `transaction_cases`: a transaction that is rolled back on every exception either
  raises and leaves the connection as it was, or commits what its statements did.
-/

set_option autoImplicit false

namespace Transactions

open Raising

/-- What happens to one statement. -/
inductive Fault where
  | none
  | fails
  | rollsBack
  deriving DecidableEq

/-- The committed data, and the working data of the open transaction. -/
structure Connection (τ : Type) where
  committed : τ
  working : Option τ
  deriving DecidableEq

/-- A connection with the faults that its next statements will meet. -/
structure Session (τ : Type) where
  connection : Connection τ
  faults : List Fault

/-- Statements on a connection. -/
abbrev Sql (τ ε α : Type) : Type := ExceptT ε (StateM (Session τ)) α

variable {τ ε α β : Type}

/-- Raise or return without touching the database. -/
def lift (x : Except ε α) : Sql τ ε α := fun session => (x, session)

/-- Meet the next fault: run the statement when there is none. -/
def meetFault (failure : ε) (statement : Connection τ → Except ε α × Connection τ) :
    Sql τ ε α := fun session =>
  let rest := session.faults.tail
  match session.faults.head?.getD .none with
  | .none =>
    let (result, connection) := statement session.connection
    (result, ⟨connection, rest⟩)
  | .fails => (.error failure, ⟨session.connection, rest⟩)
  | .rollsBack => (.error failure, ⟨{ session.connection with working := none }, rest⟩)

/-- One statement. It works on the open transaction, or commits at once when there is
none. A statement that raises changes nothing. -/
def execute (failure : ε) (statement : τ → Except ε (α × τ)) : Sql τ ε α :=
  meetFault failure fun connection =>
    match connection.working with
    | some working =>
      match statement working with
      | .ok (a, working) => (.ok a, { connection with working := some working })
      | .error e => (.error e, connection)
    | none =>
      match statement connection.committed with
      | .ok (a, committed) => (.ok a, { connection with committed })
      | .error e => (.error e, connection)

/-- A statement that only reads. -/
def query (failure : ε) (read : τ → α) : Sql τ ε α :=
  execute failure fun data => .ok (read data, data)

/-- `BEGIN`. -/
def begin (failure : ε) : Sql τ ε Unit :=
  meetFault failure fun connection =>
    match connection.working with
    | some _ => (.error failure, connection)
    | none => (.ok (), { connection with working := some connection.committed })

/-- `COMMIT`. -/
def commit (failure : ε) : Sql τ ε Unit :=
  meetFault failure fun connection =>
    match connection.working with
    | some working => (.ok (), ⟨working, none⟩)
    | none => (.error failure, connection)

/-- `try: body except: if in_transaction: ROLLBACK; raise`. -/
def rollingBack (translate : ε → ε) (body : Sql τ ε α) : Sql τ ε α := fun session =>
  match body session with
  | (.ok a, after) => (.ok a, after)
  | (.error e, after) =>
    (.error (translate e), { after with connection := { after.connection with working := none } })

theorem bind_apply (x : Sql τ ε α) (f : α → Sql τ ε β) (session : Session τ) :
    (x >>= f) session =
      match x session with
      | (.ok a, after) => f a after
      | (.error e, after) => (.error e, after) := by
  change (ExceptT.bind x f) session = _
  cases outcome : x session with
  | mk result after =>
      cases result with
      | ok a =>
          simp only [ExceptT.bind, ExceptT.mk, bind, StateT.bind, outcome]
          rfl
      | error e =>
          simp only [ExceptT.bind, ExceptT.mk, bind, StateT.bind, outcome]
          rfl

/-! ## Inside a transaction -/

/-- In an open transaction with `P`, the committed data is not touched, and success leaves
the transaction open with `Q`. -/
def Within (P : τ → Prop) (x : Sql τ ε α) (Q : α → τ → Prop) : Prop :=
  ∀ (session : Session τ) (working : τ), session.connection.working = some working → P working →
    (x session).2.connection.committed = session.connection.committed ∧
    ∀ a, (x session).1 = .ok a →
      ∃ working', (x session).2.connection.working = some working' ∧ Q a working'

namespace Within

variable {P : τ → Prop} {Q : α → τ → Prop} {R : β → τ → Prop}

/-- A weaker result. -/
theorem mono {x : Sql τ ε α} {Q' : α → τ → Prop} (first : Within P x Q)
    (weaker : ∀ a working, Q a working → Q' a working) : Within P x Q' := by
  intro session working isOpen held
  obtain ⟨kept, success⟩ := first session working isOpen held
  refine ⟨kept, ?_⟩
  intro a returned
  obtain ⟨working', isOpen', held'⟩ := success a returned
  exact ⟨working', isOpen', weaker a working' held'⟩

theorem pure {a : α} (holds : ∀ working, P working → Q a working) :
    Within (ε := ε) P (Pure.pure a) Q := by
  intro session working isOpen held
  refine ⟨rfl, ?_⟩
  intro b returned
  cases returned
  exact ⟨working, isOpen, holds working held⟩

theorem lift {x : Except ε α} (holds : ∀ a working, x = .ok a → P working → Q a working) :
    Within P (Transactions.lift x) Q := by
  intro session working isOpen held
  exact ⟨rfl, fun a returned => ⟨working, isOpen, holds a working returned held⟩⟩

/-- Statements in sequence. -/
theorem bind {x : Sql τ ε α} {f : α → Sql τ ε β} (first : Within P x Q)
    (next : ∀ a, Within (Q a) (f a) R) : Within P (x >>= f) R := by
  intro session working isOpen held
  obtain ⟨kept, success⟩ := first session working isOpen held
  rw [bind_apply]
  cases outcome : x session with
  | mk result after =>
      rw [outcome] at kept success
      cases result with
      | error e => exact ⟨kept, fun b returned => by cases returned⟩
      | ok a =>
          obtain ⟨working', isOpen', held'⟩ := success a rfl
          obtain ⟨kept', success'⟩ := next a after working' isOpen' held'
          exact ⟨kept'.trans kept, success'⟩

theorem execute {failure : ε} {statement : τ → Except ε (α × τ)}
    (holds : ∀ working a working', P working → statement working = .ok (a, working') →
      Q a working') : Within P (Transactions.execute failure statement) Q := by
  intro session working isOpen held
  unfold Transactions.execute meetFault
  cases session.faults.head?.getD .none with
  | none =>
      simp only [isOpen]
      cases outcome : statement working with
      | ok result =>
          refine ⟨rfl, ?_⟩
          intro a returned
          cases returned
          exact ⟨_, rfl, holds working _ _ held outcome⟩
      | error e => exact ⟨rfl, fun a returned => by cases returned⟩
  | fails => exact ⟨rfl, fun a returned => by cases returned⟩
  | rollsBack => exact ⟨rfl, fun a returned => by cases returned⟩

theorem query {failure : ε} {read : τ → α} (holds : ∀ working, P working → Q (read working) working) :
    Within P (Transactions.query failure read) Q := by
  refine execute ?_
  intro working a working' held same
  cases same
  exact holds working held

end Within

/-- Statements that work on the open transaction only, whatever it holds. -/
def Inside (x : Sql τ ε α) : Prop := Within (fun _ => True) x fun _ _ => True

namespace Inside

theorem pure (a : α) : Inside (Pure.pure a : Sql τ ε α) := Within.pure fun _ _ => trivial

theorem lift (x : Except ε α) : Inside (Transactions.lift x : Sql τ ε α) :=
  Within.lift fun _ _ _ _ => trivial

theorem bind {x : Sql τ ε α} {f : α → Sql τ ε β} (first : Inside x) (next : ∀ a, Inside (f a)) :
    Inside (x >>= f) :=
  Within.bind first next

theorem execute (failure : ε) (statement : τ → Except ε (α × τ)) :
    Inside (Transactions.execute failure statement) :=
  Within.execute fun _ _ _ _ _ => trivial

theorem query (failure : ε) (read : τ → α) : Inside (Transactions.query failure read) :=
  execute failure _

end Inside

/-! ## To the commit -/

/-- In an open transaction with `P`, failure leaves the committed data as it was, and
success has committed data with `Q`. -/
def Closing (P : τ → Prop) (x : Sql τ ε α) (Q : α → τ → Prop) : Prop :=
  ∀ (session : Session τ) (working : τ), session.connection.working = some working → P working →
    (∀ e, (x session).1 = .error e →
      (x session).2.connection.committed = session.connection.committed) ∧
    ∀ a, (x session).1 = .ok a →
      ∃ data, (x session).2.connection = ⟨data, none⟩ ∧ Q a data

namespace Closing

variable {P : τ → Prop} {Q : α → τ → Prop} {R : β → τ → Prop}

/-- Statements before the commit. -/
theorem bind {x : Sql τ ε α} {f : α → Sql τ ε β} (first : Within P x Q)
    (next : ∀ a, Closing (Q a) (f a) R) : Closing P (x >>= f) R := by
  intro session working isOpen held
  obtain ⟨kept, success⟩ := first session working isOpen held
  rw [bind_apply]
  cases outcome : x session with
  | mk result after =>
      rw [outcome] at kept success
      cases result with
      | error e => exact ⟨fun _ _ => kept, fun b returned => by cases returned⟩
      | ok a =>
          obtain ⟨working', isOpen', held'⟩ := success a rfl
          obtain ⟨failure, success'⟩ := next a after working' isOpen' held'
          exact ⟨fun e raised => (failure e raised).trans kept, success'⟩

/-- The commit itself. -/
theorem commit {failure : ε} {a : α} (holds : ∀ working, P working → Q a working) :
    Closing P (do Transactions.commit failure; Pure.pure a) Q := by
  intro session working isOpen held
  rw [bind_apply]
  unfold Transactions.commit meetFault
  cases session.faults.head?.getD .none with
  | none =>
      simp only [isOpen]
      refine ⟨fun e raised => (by cases raised), ?_⟩
      intro b returned
      cases returned
      exact ⟨working, rfl, holds working held⟩
  | fails => exact ⟨fun _ _ => rfl, fun b returned => by cases returned⟩
  | rollsBack => exact ⟨fun _ _ => rfl, fun b returned => by cases returned⟩

end Closing

/-! ## From known data -/

/-- From the given working data, success leads to working data with `after`. -/
def Leads (before : τ) (x : Sql τ ε α) (after : α → τ → Prop) : Prop :=
  Within (fun data => data = before) x after

namespace Leads

variable {before : τ} {after : α → τ → Prop} {final : β → τ → Prop}

theorem pure {a : α} (holds : after a before) :
    Leads before (Pure.pure a : Sql τ ε α) after := by
  apply Within.pure
  rintro _ rfl
  exact holds

theorem lift {x : Except ε α} (holds : ∀ a, x = .ok a → after a before) :
    Leads before (Transactions.lift x) after := by
  apply Within.lift
  rintro a _ computed rfl
  exact holds a computed

/-- Statements in sequence. -/
theorem bind {x : Sql τ ε α} {f : α → Sql τ ε β} (first : Leads before x after)
    (next : ∀ a data, after a data → Leads data (f a) final) : Leads before (x >>= f) final := by
  apply Within.bind first
  intro a session working isOpen held
  exact next a working held session working isOpen rfl

/-- A computed value before statements. -/
theorem lift_bind {x : Except ε α} {f : α → Sql τ ε β}
    (next : ∀ a, x = .ok a → Leads before (f a) final) :
    Leads before (Transactions.lift x >>= f) final := by
  refine @bind _ _ _ _ _ (fun a data => x = .ok a ∧ data = before) _ _ _ ?_ ?_
  · exact lift fun a computed => ⟨computed, rfl⟩
  · rintro a _ ⟨computed, rfl⟩
    exact next a computed

theorem execute {failure : ε} {statement : τ → Except ε (α × τ)}
    (holds : ∀ a data, statement before = .ok (a, data) → after a data) :
    Leads before (Transactions.execute failure statement) after := by
  apply Within.execute
  rintro _ a data rfl run
  exact holds a data run

/-- A statement before others. -/
theorem execute_bind {failure : ε} {statement : τ → Except ε (α × τ)} {f : α → Sql τ ε β}
    (next : ∀ a data, statement before = .ok (a, data) → Leads data (f a) final) :
    Leads before (Transactions.execute failure statement >>= f) final :=
  bind (execute fun _ _ run => run) next

theorem query_bind {failure : ε} {read : τ → α} {f : α → Sql τ ε β}
    (next : Leads before (f (read before)) final) :
    Leads before (Transactions.query failure read >>= f) final := by
  apply execute_bind
  intro a data same
  cases same
  exact next

/-- Statements that keep an invariant lead to data with it. -/
theorem keeping {P : τ → Prop} {x : Sql τ ε α} (leads : Leads before x after)
    (keeps : Within P x fun _ => P) :
    Within (fun data => data = before ∧ P data) x fun a data => after a data ∧ P data := by
  rintro session working isOpen ⟨same, held⟩
  obtain ⟨kept, success⟩ := leads session working isOpen same
  refine ⟨kept, ?_⟩
  intro a returned
  obtain ⟨data, stillOpen, led⟩ := success a returned
  obtain ⟨data', sameOpen, held'⟩ := (keeps session working isOpen held).2 a returned
  rw [stillOpen, Option.some.injEq] at sameOpen
  subst sameOpen
  exact ⟨data, stillOpen, led, held'⟩

/-- Statements before the commit. -/
theorem closing {x : Sql τ ε α} {f : α → Sql τ ε β} (first : Leads before x after)
    (next : ∀ a data, after a data → Closing (fun working => working = data) (f a) final) :
    Closing (fun working => working = before) (x >>= f) final := by
  apply Closing.bind first
  intro a session working isOpen held
  exact next a working held session working isOpen rfl

end Leads

/-- **A transaction raises and changes nothing, or commits what its statements did**,
whatever faults its statements meet. -/
theorem transaction_cases {failure : ε} {translate : ε → ε} {body : Sql τ ε α} {P : τ → Prop}
    {Q : α → τ → Prop} (closing : Closing P body Q) {session : Session τ}
    (idle : session.connection.working = none) (held : P session.connection.committed) :
    (∃ e, (rollingBack translate (do begin failure; body) session).1 = .error e ∧
      (rollingBack translate (do begin failure; body) session).2.connection = session.connection) ∨
    (∃ a data, (rollingBack translate (do begin failure; body) session).1 = .ok a ∧
      (rollingBack translate (do begin failure; body) session).2.connection = ⟨data, none⟩ ∧
      Q a data) := by
  have untouched : ∀ {connection : Connection τ},
      connection.committed = session.connection.committed →
        ({ connection with working := none } : Connection τ) = session.connection := by
    intro connection same
    cases whole : session.connection
    rw [whole] at idle same
    simp only at idle same
    rw [idle, same]
  unfold rollingBack
  rw [bind_apply]
  unfold begin meetFault
  cases session.faults.head?.getD .none with
  | none =>
      simp only [idle]
      have opened := closing ⟨⟨session.connection.committed, some session.connection.committed⟩,
        session.faults.tail⟩ session.connection.committed rfl held
      obtain ⟨failed, succeeded⟩ := opened
      cases outcome : body ⟨⟨session.connection.committed, some session.connection.committed⟩,
          session.faults.tail⟩ with
      | mk result after =>
          rw [outcome] at failed succeeded
          cases result with
          | error e => exact .inl ⟨translate e, rfl, untouched (failed e rfl)⟩
          | ok a =>
              obtain ⟨data, connectionEq, held'⟩ := succeeded a rfl
              exact .inr ⟨a, data, rfl, connectionEq, held'⟩
  | fails => exact .inl ⟨translate failure, rfl, untouched rfl⟩
  | rollsBack => exact .inl ⟨translate failure, rfl, untouched rfl⟩

end Transactions
