import OurCoin.Ledger.Headroom
import OurCoin.Ledger.Accounting
import OurCoin.Ledger.Objects

/-!
# The order of a batch

Two orders of one batch may differ in which of them succeeds and in every intermediate state,
since senders can fund each other. What a batch leaves when it succeeds does not depend on its
order: a balance changes by the sum of what the transactions do to it, a nonce by how many of
them the account sent (`AccountState.Batch.accountOf_perm`), an account is stored when it was
before or some transaction names it (`Batch.get?_named`, `Batch.get?_unnamed`), and the
confirmed IDs are a union. `StateObject.batch_law` states it for the state objects that
`apply_transactions` works on, together with what a failed batch leaves behind.
-/

set_option autoImplicit false

namespace OurCoin

open Raising

/-- A transaction moves coins from or to an address. -/
def Transaction.Names (tx : Transaction) (address : Text) : Prop :=
  tx.senderAddress = address ∨ tx.recipientAddress = address

namespace AccountState

/-! ## Stored accounts -/

theorem get?_setAccount (state : AccountState) (address other : Text) (account : Account) :
    (state.setAccount address account).accounts.get? other =
      if address = other then some account else state.accounts.get? other :=
  Dict.get?_set _ _ _ _

/-- Moving balances stores the accounts that the transaction names, and no others. -/
theorem get?_moveBalances {state moved : AccountState} {tx : Transaction}
    (run : state.moveBalances tx = .ok moved) (address : Text) :
    (tx.Names address → (moved.accounts.get? address).isSome = true) ∧
      (¬ tx.Names address → moved.accounts.get? address = state.accounts.get? address) := by
  simp only [moveBalances] at run
  split at run
  · rename_i toSelf
    simp only [bind_eq_ok, pure_eq_ok] at run
    obtain ⟨account, -, rfl⟩ := run
    rw [get?_setAccount, Transaction.Names, ← toSelf, or_self]
    constructor
    · intro named
      rw [if_pos named]
      rfl
    · intro unnamed
      rw [if_neg unnamed]
  · simp only [bind_eq_ok, pure_eq_ok, raiseIf_eq_ok, exists_const] at run
    obtain ⟨debited, -, -, credited, -, rfl⟩ := run
    rw [get?_setAccount, get?_setAccount, Transaction.Names]
    constructor
    · rintro (sender | recipient)
      · rw [if_pos sender]
        split <;> rfl
      · rw [if_pos recipient]
        rfl
    · intro unnamed
      rw [not_or] at unnamed
      rw [if_neg unnamed.2, if_neg unnamed.1]

section Batches

variable [Platform] {height : Int} {before after : AccountState} {transactions : List Transaction}

theorem Applied.get?_cases {tx : Transaction} (applied : before.Applied tx height after)
    (address : Text) :
    (tx.Names address → (after.accounts.get? address).isSome = true) ∧
      (¬ tx.Names address → after.accounts.get? address = before.accounts.get? address) := by
  obtain ⟨moved, txid, run, -, rfl⟩ := applied.exists_moved
  exact get?_moveBalances run address

/-- **Accounts named by no transaction are unchanged.** -/
theorem Batch.get?_unnamed (batch : Batch height before transactions after) {address : Text}
    (unnamed : ∀ tx ∈ transactions, ¬ tx.Names address) :
    after.accounts.get? address = before.accounts.get? address := by
  induction batch with
  | nil => rfl
  | @cons before next after tx rest applied _ ih =>
      rw [ih fun other member => unnamed other (List.mem_cons_of_mem _ member)]
      exact (applied.get?_cases address).2 (unnamed tx List.mem_cons_self)

/-- A stored account stays stored. -/
theorem Batch.get?_stored (batch : Batch height before transactions after) {address : Text}
    (stored : (before.accounts.get? address).isSome = true) :
    (after.accounts.get? address).isSome = true := by
  induction batch with
  | nil => exact stored
  | @cons before next after tx rest applied _ ih =>
      apply ih
      by_cases named : tx.Names address
      · exact (applied.get?_cases address).1 named
      · rw [(applied.get?_cases address).2 named]
        exact stored

/-- An account named by a transaction is stored. -/
theorem Batch.get?_named (batch : Batch height before transactions after) {address : Text}
    (named : ∃ tx ∈ transactions, tx.Names address) :
    (after.accounts.get? address).isSome = true := by
  induction batch with
  | nil =>
      obtain ⟨tx, member, -⟩ := named
      cases member
  | @cons before next after tx rest applied batch ih =>
      obtain ⟨other, member, names⟩ := named
      rcases List.mem_cons.mp member with rfl | later
      · exact batch.get?_stored ((applied.get?_cases address).1 names)
      · exact ih ⟨other, later, names⟩

/-! ## Two orders -/

omit [Platform] in
/-- A stored account is the one that the state has under its address. -/
theorem get?_eq_accountOf {state : AccountState} {address : Text}
    (stored : (state.accounts.get? address).isSome = true) :
    state.accounts.get? address = some (state.accountOf address) := by
  rw [accountOf]
  cases found : state.accounts.get? address with
  | none =>
      rw [found] at stored
      cases stored
  | some account => rfl

variable {before after after' : AccountState} {xs ys : List Transaction}

/-- **An account is a sum of contributions**, whatever the order they come in. -/
theorem Batch.accountOf_perm (batch : Batch height before xs after)
    (batch' : Batch height before ys after') (perm : xs.Perm ys) (address : Text) :
    after.accountOf address = after'.accountOf address := by
  apply Account.ext_values
  · rw [batch.balance, batch'.balance, (perm.map (netAtoms address)).sum_eq]
  · rw [batch.nonce_eq, batch'.nonce_eq, sentBy, sentBy, (perm.filter _).length_eq]

theorem Batch.accounts_perm (batch : Batch height before xs after)
    (batch' : Batch height before ys after') (perm : xs.Perm ys) :
    after.accounts.Agrees after'.accounts := by
  intro address
  by_cases named : ∃ tx ∈ xs, tx.Names address
  · have named' : ∃ tx ∈ ys, tx.Names address := by
      obtain ⟨tx, member, names⟩ := named
      exact ⟨tx, perm.mem_iff.mp member, names⟩
    rw [get?_eq_accountOf (batch.get?_named named), get?_eq_accountOf (batch'.get?_named named'),
      batch.accountOf_perm batch' perm]
  · have unnamed : ∀ tx ∈ xs, ¬ tx.Names address := fun tx member names => named ⟨tx, member, names⟩
    rw [batch.get?_unnamed unnamed,
      batch'.get?_unnamed fun tx member => unnamed tx (perm.mem_iff.mpr member)]

theorem Batch.confirmedTxids_perm (batch : Batch height before xs after)
    (batch' : Batch height before ys after') (perm : xs.Perm ys) :
    after.confirmedTxids = after'.confirmedTxids := by
  obtain ⟨ids, idsOk, -, -, union⟩ := batch.txids
  obtain ⟨ids', idsOk', -, -, union'⟩ := batch'.txids
  rw [union, union']
  congr 1
  ext id
  rw [List.mem_toFinset, List.mem_toFinset, mem_of_mapM_eq_ok idsOk, mem_of_mapM_eq_ok idsOk']
  exact exists_congr fun tx => and_congr_left fun _ => perm.mem_iff

/-- **Two orders of a batch leave the same state.** -/
theorem Batch.agrees_of_perm (batch : Batch height before xs after)
    (batch' : Batch height before ys after') (perm : xs.Perm ys) : after.Agrees after' where
  network_eq := batch.network_eq.trans batch'.network_eq.symm
  accounts := batch.accounts_perm batch' perm
  confirmedTxids_eq := batch.confirmedTxids_perm batch' perm

omit [Platform] in
theorem totalFees_perm (perm : xs.Perm ys) : totalFees xs = totalFees ys :=
  (perm.map Transaction.feeAtoms).sum_eq

end Batches

end AccountState

/-! ## State objects -/

namespace StateObject

variable [Platform] {memory : Memory} {self : Nat}

theorem applyTransactions_returned (allocated : memory.Allocated self)
    {transactions : List Transaction} {height fees : Int} {after : Memory}
    (returned : applyTransactions self transactions height memory = (.ok fees, after)) :
    (memory.view self).applyTransactions transactions height = .ok (fees, after.view self) := by
  have realizes := applyTransactions_realizes allocated transactions height
  cases outcome : (memory.view self).applyTransactions transactions height with
  | error e =>
      obtain ⟨left, raised, -⟩ := realizes.2 e outcome
      rw [returned] at raised
      cases raised
  | ok result =>
      obtain ⟨fees', left, same, rfl, view, -⟩ := realizes.1 result outcome
      rw [returned] at same
      cases same
      rw [view]

theorem applyTransactions_raised (allocated : memory.Allocated self)
    {transactions : List Transaction} {height : Int} {e : Raised} {after : Memory}
    (raised : applyTransactions self transactions height memory = (.error e, after)) :
    memory.Framed after := by
  have realizes := applyTransactions_realizes allocated transactions height
  cases outcome : (memory.view self).applyTransactions transactions height with
  | error e' =>
      obtain ⟨left, same, framed⟩ := realizes.2 e' outcome
      rw [raised] at same
      cases same
      exact framed
  | ok result =>
      obtain ⟨fees, left, same, -⟩ := realizes.1 result outcome
      rw [raised] at same
      cases same

/-- What `apply_transactions` leaves of a state object. -/
structure BatchLaw (memory : Memory) (self : Nat) (height : Int) : Prop where
  /-- Two orders of one batch that both succeed lead to the same accounts, confirmed IDs, root
  and fees. -/
  permuted : ∀ xs ys : List Transaction, xs.Perm ys → ∀ fees fees' after after',
    applyTransactions self xs height memory = (.ok fees, after) →
    applyTransactions self ys height memory = (.ok fees', after') →
      fees = fees' ∧ (after.view self).accounts.Agrees (after'.view self).accounts ∧
      (after.view self).confirmedTxids = (after'.view self).confirmedTxids ∧
      (after.view self).stateRoot = (after'.view self).stateRoot
  /-- An account that no transaction names is unchanged. -/
  unnamed : ∀ xs fees after, applyTransactions self xs height memory = (.ok fees, after) →
    ∀ address, (∀ tx ∈ xs, tx.senderAddress ≠ address ∧ tx.recipientAddress ≠ address) →
      (after.view self).accounts.get? address = (memory.view self).accounts.get? address
  /-- A batch that raises leaves the object as it was. -/
  atomic : ∀ xs e after, applyTransactions self xs height memory = (.error e, after) →
    after.objects self = memory.objects self ∧ after.view self = memory.view self

/-- **The outcome of a batch does not depend on its order**, and a batch that fails changes
nothing. -/
theorem batch_law (allocated : memory.Allocated self) (height : Int) :
    BatchLaw memory self height := by
  refine ⟨?_, ?_, ?_⟩
  · intro xs ys perm fees fees' after after' returned returned'
    obtain ⟨-, -, batch, feesEq⟩ :=
      AccountState.applyTransactions_ok (applyTransactions_returned allocated returned)
    obtain ⟨-, -, batch', feesEq'⟩ :=
      AccountState.applyTransactions_ok (applyTransactions_returned allocated returned')
    have same := batch.agrees_of_perm batch' perm
    exact ⟨by rw [feesEq, feesEq', AccountState.totalFees_perm perm], same.accounts,
      same.confirmedTxids_eq, same.stateRoot_eq⟩
  · intro xs fees after returned address unnamed
    obtain ⟨-, -, batch, -⟩ :=
      AccountState.applyTransactions_ok (applyTransactions_returned allocated returned)
    apply batch.get?_unnamed
    rintro tx member (sender | recipient)
    · exact (unnamed tx member).1 sender
    · exact (unnamed tx member).2 recipient
  · intro xs e after raised
    have framed := applyTransactions_raised allocated raised
    exact ⟨framed.objects self allocated.object, framed.view_eq allocated⟩

/-- One object, whose accounts are those of two senders. -/
def payersMemory : Memory where
  objects _ := ⟨testnet, 0, 0⟩
  dicts _ := Payer.payersState.accounts
  sets _ := ∅
  next := 1

omit [Platform] in
open Payer in
/-- The payment of the other sender may come before the transfers or after them. -/
theorem batch_law_payers :
    (@applyTransactions trustingPlatform 0 [firstTransfer, secondTransfer, payment] 1
      payersMemory).1 = .ok 4 ∧
    (@applyTransactions trustingPlatform 0 [payment, firstTransfer, secondTransfer] 1
      payersMemory).1 = .ok 4 ∧
    @BatchLaw trustingPlatform payersMemory 0 1 :=
  ⟨by decide +kernel, by decide +kernel,
    @batch_law trustingPlatform payersMemory 0 ⟨by decide, by decide, by decide⟩ 1⟩

end StateObject

end OurCoin
