import OurCoin.Ledger.Validation

/-!
# No balance overflows

The total of all balances bounds each of them, and any two of them together
(`AccountState.balance_add_le`). So on a state whose total fits 64 bits a transaction that
passes the checks can always be executed (`AccountState.Admits.exists_applied`): its sender
covers the amount, and the amount that leaves one account fits the other one. Fees leave the
accounts as they are collected, so the fees of a batch are bounded by the total as well
(`AccountState.foldlM_applyNext_of_batch`). Between the transactions of one sender others may
come: what they do to its balance never lowers it (`AccountState.Batch.own_net_le`).
-/

set_option autoImplicit false

namespace OurCoin

open Raising

namespace AccountState

/-! ## Balances and their total -/

theorem balance_nonneg (state : AccountState) (address : Text) :
    0 ≤ (state.accountOf address).balanceAtoms :=
  (state.accountOf address).balance_range.1

theorem totalBalance_nonneg (state : AccountState) : 0 ≤ state.totalBalance := by
  apply List.sum_nonneg
  intro balance member
  obtain ⟨item, -, rfl⟩ := List.mem_map.mp member
  exact item.2.balance_range.1

/-- One balance is at most the total. -/
theorem balance_le (state : AccountState) (address : Text) :
    (state.accountOf address).balanceAtoms ≤ state.totalBalance := by
  rw [accountOf]
  cases found : state.accounts.get? address with
  | none => exact state.totalBalance_nonneg
  | some account => exact Dict.le_sumBy (fun account _ => account.balance_range.1) found

/-- **Two balances together are at most the total.** -/
theorem balance_add_le (state : AccountState) {first second : Text} (different : first ≠ second) :
    (state.accountOf first).balanceAtoms + (state.accountOf second).balanceAtoms ≤
      state.totalBalance := by
  -- The second balance is at most the total of the state without the first account.
  have without := (state.setAccount first Account.zero).balance_le second
  have zero : Account.zero.balanceAtoms = 0 := rfl
  rw [totalBalance_setAccount, accountOf_setAccount, if_neg different, zero] at without
  omega

/-! ## One transaction -/

section Transactions

variable [Platform]

/-- A transaction that passes the checks moves balances that fit. -/
theorem Admits.exists_moved {state : AccountState} {tx : Transaction} {height : Int}
    (admitted : state.Admits tx height) (fits : state.totalBalance ≤ u64Max) :
    ∃ moved, state.moveBalances tx = .ok moved := by
  have covered := admitted.covered
  have amount := admitted.valid.amount_pos
  have fee := admitted.valid.fee_nonneg
  have nonceLeft := admitted.nonce_left
  have nonceRange := (state.accountOf tx.senderAddress).nonce_range
  have senderRange := (state.accountOf tx.senderAddress).balance_range
  have recipientRange := (state.accountOf tx.recipientAddress).balance_range
  have nextNonce : 0 ≤ (state.accountOf tx.senderAddress).nonce + 1 ∧
      (state.accountOf tx.senderAddress).nonce + 1 ≤ u64Max := by omega
  rw [moveBalances]
  by_cases toSelf : tx.senderAddress = tx.recipientAddress
  · simp only [if_pos toSelf, bind_eq_ok, pure_eq_ok, Account.new_eq_ok]
    exact ⟨_, ⟨_, _, by omega, nextNonce⟩, ⟨rfl, rfl⟩, rfl⟩
  · have together := state.balance_add_le toSelf
    simp only [if_neg toSelf, bind_eq_ok, pure_eq_ok, raiseIf_eq_ok, exists_const, Account.new_eq_ok]
    exact ⟨_, ⟨_, _, by omega, nextNonce⟩, ⟨rfl, rfl⟩, by omega,
      ⟨_, _, by omega, (state.accountOf tx.recipientAddress).nonce_range⟩, ⟨rfl, rfl⟩, rfl⟩

/-- **A transaction that passes the checks can be executed.** -/
theorem Admits.exists_applied {state : AccountState} {tx : Transaction} {height : Int}
    (admitted : state.Admits tx height) (fits : state.totalBalance ≤ u64Max) :
    ∃ after, state.Applied tx height after := by
  obtain ⟨moved, movedOk⟩ := admitted.exists_moved fits
  obtain ⟨txid, txidOk⟩ := admitted.valid.exists_txid
  exact ⟨_, admitted, moved, txid, movedOk, txidOk, rfl⟩

theorem Admits.fee_le {state : AccountState} {tx : Transaction} {height : Int}
    (admitted : state.Admits tx height) : tx.feeAtoms ≤ state.totalBalance := by
  have covered := admitted.covered
  have amount := admitted.valid.amount_pos
  have bounded := state.balance_le tx.senderAddress
  omega

/-! ## A batch -/

omit [Platform] in
theorem totalFees_cons (tx : Transaction) (rest : List Transaction) :
    totalFees (tx :: rest) = tx.feeAtoms + totalFees rest := by
  rw [totalFees, List.map_cons, List.sum_cons, totalFees]

/-- The rounds of a batch succeed when their transactions can be executed one after another.
The fees collected so far and the total that is left never exceed their bound. -/
theorem foldlM_applyNext_of_batch {height : Int} {before after : AccountState}
    {transactions : List Transaction} (batch : Batch height before transactions after) :
    ∀ {fees : Int}, fees + before.totalBalance ≤ u64Max →
      transactions.foldlM (applyNext height) (fees, before) =
        .ok (fees + totalFees transactions, after) := by
  induction batch with
  | nil state =>
      intro fees _
      simp [totalFees]
  | @cons before next after tx rest applied _ ih =>
      intro fees fits
      have fee := applied.admitted.fee_le
      have total := applied.total
      have round : applyNext height (fees, before) tx = .ok (fees + tx.feeAtoms, next) :=
        applyNext_eq_ok.mpr ⟨applied, rfl, by dsimp only; omega⟩
      have others := @ih (fees + tx.feeAtoms) (by omega)
      rw [List.foldlM_cons, round, ok_bind, others, totalFees_cons, add_assoc]

/-- **A batch whose transactions can be executed one after another succeeds.** -/
theorem Batch.applyTransactions_eq {height : Int} {before after : AccountState}
    {transactions : List Transaction} (batch : Batch height before transactions after)
    (wellFormed : before.WellFormed) (range : 0 ≤ height ∧ height ≤ u64Max)
    (fits : before.totalBalance ≤ u64Max) :
    before.applyTransactions transactions height = .ok (totalFees transactions, after) := by
  have rounds := @foldlM_applyNext_of_batch _ _ _ _ _ batch 0 (by omega)
  rw [zero_add] at rounds
  have sameState : ({ before with
      accounts := after.accounts
      confirmedTxids := after.confirmedTxids } : AccountState) = after := by
    have network := batch.network_eq
    cases after
    simp only at network
    simp [network]
  simp only [applyTransactions, bind_eq_ok, raiseIf_eq_ok, exists_const, pure_eq_ok, copy_eq_ok,
    not_not]
  exact ⟨range, before, ⟨wellFormed, rfl⟩, _, rounds, by rw [sameState]⟩

/-- The fees of a batch are not negative. -/
theorem Batch.totalFees_nonneg {height : Int} {before after : AccountState}
    {transactions : List Transaction} (batch : Batch height before transactions after) :
    0 ≤ totalFees transactions := by
  induction batch with
  | nil => simp [totalFees]
  | @cons before next after tx rest applied _ ih =>
      have fee := applied.admitted.valid.fee_nonneg
      rw [totalFees_cons]
      omega

/-! ## Parts of a batch -/

/-- One more transaction at the end of a batch. -/
theorem Batch.concat {height : Int} {before middle after : AccountState}
    {transactions : List Transaction} {tx : Transaction}
    (batch : Batch height before transactions middle) (applied : middle.Applied tx height after) :
    Batch height before (transactions ++ [tx]) after := by
  induction batch with
  | nil state => exact .cons applied (.nil after)
  | cons first _ ih => exact .cons first (ih applied)

/-- A batch passes through the state between its parts. -/
theorem Batch.split {height : Int} : ∀ {front back : List Transaction}
    {before after : AccountState}, Batch height before (front ++ back) after →
      ∃ middle, Batch height before front middle ∧ Batch height middle back after
  | [], _, before, _, batch => ⟨before, .nil before, batch⟩
  | _ :: _, _, _, _, .cons applied rest => by
      obtain ⟨middle, first, second⟩ := Batch.split rest
      exact ⟨middle, .cons applied first, second⟩

/-- What a transaction does to the balance of an address. -/
def netAtoms (address : Text) (tx : Transaction) : Int :=
  (if tx.recipientAddress = address then tx.amountAtoms else 0) -
    (if tx.senderAddress = address then tx.amountAtoms + tx.feeAtoms else 0)

/-- A batch changes a balance by what its transactions do to it. -/
theorem Batch.balance {height : Int} {before after : AccountState}
    {transactions : List Transaction} (batch : Batch height before transactions after)
    (address : Text) : (after.accountOf address).balanceAtoms =
      (before.accountOf address).balanceAtoms + (transactions.map (netAtoms address)).sum := by
  induction batch with
  | nil => simp
  | @cons before next after tx rest applied _ ih =>
      rw [ih, applied.balance, List.map_cons, List.sum_cons, netAtoms]
      omega

/-- **What others send can only help**: a balance is at least what the own transactions
leave of it. -/
theorem Batch.own_net_le {height : Int} {before after : AccountState}
    {transactions : List Transaction} (batch : Batch height before transactions after)
    (address : Text) :
    ((transactions.filter fun tx => tx.senderAddress = address).map (netAtoms address)).sum ≤
      (transactions.map (netAtoms address)).sum := by
  induction batch with
  | nil => simp
  | @cons before next after tx rest applied _ ih =>
      have amount := applied.admitted.valid.amount_pos
      by_cases own : tx.senderAddress = address
      · rw [List.filter_cons_of_pos (by simpa using own), List.map_cons, List.map_cons,
          List.sum_cons, List.sum_cons]
        omega
      · have gain : 0 ≤ netAtoms address tx := by
          rw [netAtoms, if_neg own]
          split <;> omega
        rw [List.filter_cons_of_neg (by simpa using own), List.map_cons, List.sum_cons]
        omega

end Transactions

/-! ## The reward -/

/-- A reward that fits the account can be credited. -/
theorem exists_creditReward {state : AccountState} {address : Text} {amount : Int}
    (valid : ∃ hash, decodeAddress address state.network = .ok hash) (nonneg : 0 ≤ amount)
    (fits : state.totalBalance + amount ≤ u64Max) :
    ∃ after, state.creditReward address amount = .ok after := by
  have bounded := state.balance_le address
  have balance := state.balance_nonneg address
  simp only [creditReward_eq_ok]
  by_cases zero : amount = 0
  · exact ⟨state, valid, by omega, .inl ⟨zero, rfl⟩⟩
  · refine ⟨_, valid, by omega, .inr ⟨zero, ⟨_, _, ?_, (state.accountOf address).nonce_range⟩, rfl,
      rfl, rfl⟩⟩
    omega

end AccountState

end OurCoin
