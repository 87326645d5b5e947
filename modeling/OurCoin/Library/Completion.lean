import OurCoin.Library.Transactions

/-!
# Statements that succeed

The rules of `Within` and `Closing` say what holds when statements succeed. `Succeeds before
x` says that they do: in an open transaction on the working data `before`, and with no fault
to come, `x` returns. What the data is in between is known from `Within`, so the rule for a
sequence joins both (`Succeeds.bind`), and `transaction_succeeds` is the rule for a whole
transaction.
-/

set_option autoImplicit false

namespace Transactions

variable {τ ε α β : Type}

/-- On an open transaction with the given working data, and with no fault to come, the
statements return. -/
def Succeeds (before : τ) (x : Sql τ ε α) : Prop :=
  ∀ committed, ∃ a after, x ⟨⟨committed, some before⟩, []⟩ = (.ok a, after) ∧ after.faults = []

namespace Succeeds

variable {before : τ} {Q : α → τ → Prop}

theorem pure (a : α) : Succeeds before (Pure.pure a : Sql τ ε α) :=
  fun _ => ⟨a, _, rfl, rfl⟩

theorem lift {x : Except ε α} {a : α} (computed : x = .ok a) :
    Succeeds before (Transactions.lift x) := by
  intro committed
  refine ⟨a, ⟨⟨committed, some before⟩, []⟩, ?_, rfl⟩
  rw [Transactions.lift, computed]

/-- Statements in sequence, with what is known between them. -/
theorem bind {x : Sql τ ε α} {f : α → Sql τ ε β} (first : Succeeds before x)
    (leads : Within (fun data => data = before) x Q)
    (next : ∀ a data, Q a data → Succeeds data (f a)) : Succeeds before (x >>= f) := by
  intro committed
  obtain ⟨a, after, returned, faults⟩ := first committed
  obtain ⟨-, success⟩ := leads ⟨⟨committed, some before⟩, []⟩ before rfl rfl
  rw [returned] at success
  obtain ⟨data, isOpen, held⟩ := success a rfl
  obtain ⟨b, final, finished, none⟩ := next a data held after.connection.committed
  refine ⟨b, final, ?_, none⟩
  obtain ⟨⟨committed', working⟩, faults'⟩ := after
  dsimp only at isOpen faults
  subst isOpen faults
  rw [bind_apply, returned]
  exact finished

/-- A computed value before statements. -/
theorem lift_bind {x : Except ε α} {f : α → Sql τ ε β} {a : α} (computed : x = .ok a)
    (next : Succeeds before (f a)) : Succeeds before (Transactions.lift x >>= f) := by
  refine @bind _ _ _ _ _ (fun a' data => a' = a ∧ data = before) _ _ (lift computed) ?_ ?_
  · apply Within.lift
    rintro a' data found rfl
    rw [computed] at found
    exact ⟨(Except.ok.inj found).symm, rfl⟩
  · rintro _ _ ⟨rfl, rfl⟩
    exact next

theorem execute {failure : ε} {statement : τ → Except ε (α × τ)} {a : α} {data : τ}
    (runs : statement before = .ok (a, data)) :
    Succeeds before (Transactions.execute failure statement) := by
  intro committed
  refine ⟨a, ⟨⟨committed, some data⟩, []⟩, ?_, rfl⟩
  unfold Transactions.execute meetFault
  simp only [List.head?_nil, Option.getD_none, runs, List.tail_nil]

/-- A statement that leads to known data, before others. -/
theorem execute_bind {failure : ε} {statement : τ → Except ε (α × τ)} {f : α → Sql τ ε β} {a : α}
    {data : τ} (runs : statement before = .ok (a, data)) (next : Succeeds data (f a)) :
    Succeeds before (Transactions.execute failure statement >>= f) := by
  refine @bind _ _ _ _ _ (fun a' data' => a' = a ∧ data' = data) _ _ (execute runs) ?_ ?_
  · apply Within.execute
    rintro working a' working' rfl found
    rw [runs] at found
    cases found
    exact ⟨rfl, rfl⟩
  · rintro _ _ ⟨rfl, rfl⟩
    exact next

theorem query_bind {failure : ε} {read : τ → α} {f : α → Sql τ ε β}
    (next : Succeeds before (f (read before))) :
    Succeeds before (Transactions.query failure read >>= f) :=
  execute_bind rfl next

theorem commit {failure : ε} {a : α} :
    Succeeds before (do Transactions.commit failure; Pure.pure a) := by
  intro committed
  refine ⟨a, ⟨⟨before, none⟩, []⟩, ?_, rfl⟩
  rw [bind_apply]
  rfl

end Succeeds

/-- **A transaction whose statements succeed returns.** -/
theorem transaction_succeeds {failure : ε} {translate : ε → ε} {body : Sql τ ε α}
    {connection : Connection τ} (idle : connection.working = none)
    (succeeds : Succeeds connection.committed body) :
    ∃ a, (rollingBack translate (do begin failure; body) ⟨connection, []⟩).1 = .ok a := by
  obtain ⟨a, after, returned, -⟩ := succeeds connection.committed
  refine ⟨a, ?_⟩
  unfold rollingBack
  rw [bind_apply]
  unfold begin meetFault
  simp only [List.head?_nil, Option.getD_none, idle, List.tail_nil, returned]

end Transactions
