import OurCoin.Model.Consensus

/-!
# The execution of transactions and rewards

What each state transition of `state.py` requires and does.

* `Admits` lists the conditions of `validate`, and `Moves` says how an executed
  transaction changes every balance, every nonce and the total of all balances.
* `Applied` is one round of `apply_transactions`, and `applyTransactions_ok` says that a
  batch that succeeds went through such rounds and collected their fees.
* Two states agree when they have the same accounts, whatever the order of their
  dictionaries (`Agrees`). Execution respects agreement, and a state restored from
  its own snapshot agrees with it, so the result of an execution depends on the
  snapshot only.
-/

set_option autoImplicit false

namespace OurCoin

open Raising

namespace AccountState

/-! ## Well-formed states -/

/-- The conditions that the constructor of a state checks. -/
structure WellFormed (state : AccountState) : Prop where
  addresses : ∀ address account, state.accounts.get? address = some account →
    isValidAddress address state.network = true
  txids : ∀ txid ∈ state.confirmedTxids, txid.length = txidLength

theorem new_eq_ok {accounts : Dict Text Account} {confirmedTxids : Finset Bytes}
    {network : NetworkConfig} {state : AccountState} :
    new accounts confirmedTxids network = .ok state ↔
      state.WellFormed ∧ state = ⟨network, accounts, confirmedTxids⟩ := by
  simp only [new, bind_eq_ok, raiseIf_eq_ok, pure_eq_ok, exists_const, not_exists, not_and,
    Bool.not_eq_false, not_not]
  constructor
  · rintro ⟨addresses, txids, rfl⟩
    refine ⟨⟨?_, txids⟩, rfl⟩
    intro address account found
    exact addresses (address, account) (Dict.get?_eq_some.mp found)
  · rintro ⟨wellFormed, rfl⟩
    refine ⟨?_, wellFormed.txids, rfl⟩
    rintro ⟨address, account⟩ member
    exact wellFormed.addresses address account (Dict.get?_eq_some.mpr member)

theorem copy_eq_ok {state copied : AccountState} :
    state.copy = .ok copied ↔ state.WellFormed ∧ copied = state := by
  rw [copy, new_eq_ok]
  constructor
  · rintro ⟨wellFormed, rfl⟩
    exact ⟨wellFormed, rfl⟩
  · rintro ⟨wellFormed, rfl⟩
    exact ⟨wellFormed, rfl⟩

/-! ## Agreement -/

/-- The same state, up to the order in which accounts were first written. -/
structure Agrees (first second : AccountState) : Prop where
  network_eq : first.network = second.network
  accounts : first.accounts.Agrees second.accounts
  confirmedTxids_eq : first.confirmedTxids = second.confirmedTxids

namespace Agrees

variable {first second third : AccountState}

theorem symm (same : first.Agrees second) : second.Agrees first :=
  ⟨same.network_eq.symm, same.accounts.symm, same.confirmedTxids_eq.symm⟩

theorem trans (same : first.Agrees second) (same' : second.Agrees third) : first.Agrees third :=
  ⟨same.network_eq.trans same'.network_eq, same.accounts.trans same'.accounts,
    same.confirmedTxids_eq.trans same'.confirmedTxids_eq⟩

theorem accountOf_eq (same : first.Agrees second) (address : Text) :
    first.accountOf address = second.accountOf address := by
  rw [accountOf, accountOf, same.accounts address]

theorem wellFormed (same : first.Agrees second) (wf : first.WellFormed) : second.WellFormed := by
  constructor
  · intro address account found
    rw [← same.network_eq]
    exact wf.addresses address account ((same.accounts address).trans found)
  · rw [← same.confirmedTxids_eq]
    exact wf.txids

theorem snapshot_eq (same : first.Agrees second) : first.snapshot = second.snapshot := by
  rw [snapshot, snapshot, same.accounts.sortedItems_eq, same.confirmedTxids_eq]

theorem setAccount (same : first.Agrees second) (address : Text) (account : Account) :
    (first.setAccount address account).Agrees (second.setAccount address account) :=
  ⟨same.network_eq, same.accounts.set address account, same.confirmedTxids_eq⟩

theorem stateRoot_eq [Platform] (same : first.Agrees second) :
    first.stateRoot = second.stateRoot := by
  rw [stateRoot, stateRoot, same.accounts.sortedItems_eq]

end Agrees

/-- A state restored from a snapshot agrees with the state it was taken from. -/
theorem fromSnapshot_snapshot {state : AccountState} (wellFormed : state.WellFormed) :
    ∃ restored, fromSnapshot state.snapshot state.network = .ok restored ∧
      restored.Agrees state := by
  have same : Agrees ⟨state.network, Dict.ofItems state.accounts.sortedItems,
      state.confirmedTxids⟩ state :=
    ⟨rfl, Dict.ofItems_sortedItems state.accounts, rfl⟩
  exact ⟨_, new_eq_ok.mpr ⟨same.symm.wellFormed wellFormed, rfl⟩, same⟩

/-! ## One transaction -/

section Transactions

variable [Platform]

/-- The conditions under which a transaction may be executed on a state. -/
structure Admits (state : AccountState) (tx : Transaction) (height : Int) : Prop where
  height_range : 0 ≤ height ∧ height ≤ u64Max
  valid : tx.IntrinsicallyValid state.network
  alive : height ≤ tx.validUntilHeight
  fresh : ∀ txid, tx.txid = .ok txid → txid ∉ state.confirmedTxids
  nonce_eq : tx.nonce = (state.accountOf tx.senderAddress).nonce
  nonce_left : (state.accountOf tx.senderAddress).nonce ≠ u64Max
  covered : tx.amountAtoms + tx.feeAtoms ≤ (state.accountOf tx.senderAddress).balanceAtoms

theorem validate_eq_ok {state : AccountState} {tx : Transaction} {height : Int} {u : Unit} :
    state.validate tx height = .ok u ↔ state.Admits tx height := by
  simp only [validate, bind_eq_ok, rethrow_eq_ok, raiseIf_eq_ok, exists_const, not_not, not_lt]
  constructor
  · rintro ⟨_, valid, txid, txidOk, fresh, nonce, left, covered⟩
    obtain ⟨range, intrinsic, alive⟩ := validateTransaction_eq_ok.mp valid
    refine ⟨range, intrinsic, alive, ?_, nonce, left, covered⟩
    intro txid' txidOk'
    rw [txidOk] at txidOk'
    cases txidOk'
    exact fresh
  · intro admitted
    obtain ⟨txid, txidOk⟩ := admitted.valid.exists_txid
    exact ⟨(), validateTransaction_eq_ok.mpr ⟨admitted.height_range, admitted.valid, admitted.alive⟩,
      txid, txidOk, admitted.fresh txid txidOk, admitted.nonce_eq, admitted.nonce_left,
      admitted.covered⟩

theorem Agrees.admits {first second : AccountState} (same : first.Agrees second)
    {tx : Transaction} {height : Int} (admitted : first.Admits tx height) :
    second.Admits tx height where
  height_range := admitted.height_range
  valid := same.network_eq ▸ admitted.valid
  alive := admitted.alive
  fresh := same.confirmedTxids_eq ▸ admitted.fresh
  nonce_eq := same.accountOf_eq tx.senderAddress ▸ admitted.nonce_eq
  nonce_left := same.accountOf_eq tx.senderAddress ▸ admitted.nonce_left
  covered := same.accountOf_eq tx.senderAddress ▸ admitted.covered

/-- The sum of all balances. -/
def totalBalance (state : AccountState) : Int := state.accounts.sumBy Account.balanceAtoms

omit [Platform] in
theorem Agrees.totalBalance_eq {first second : AccountState} (same : first.Agrees second) :
    first.totalBalance = second.totalBalance :=
  same.accounts.sumBy_eq _

omit [Platform] in
theorem accountOf_setAccount (state : AccountState) (address other : Text) (account : Account) :
    (state.setAccount address account).accountOf other =
      if address = other then account else state.accountOf other := by
  rw [accountOf, setAccount, Dict.get?_set]
  split <;> rfl

omit [Platform] in
/-- Writing an account changes the total by the new balance minus the old one. -/
theorem totalBalance_setAccount (state : AccountState) (address : Text) (account : Account) :
    (state.setAccount address account).totalBalance =
      state.totalBalance - (state.accountOf address).balanceAtoms + account.balanceAtoms := by
  have replaced : ((state.accounts.get? address).map Account.balanceAtoms).getD 0 =
      (state.accountOf address).balanceAtoms := by
    rw [accountOf]
    cases state.accounts.get? address <;> rfl
  rw [totalBalance, setAccount, Dict.sumBy_set, replaced]
  rfl

omit [Platform] in
theorem WellFormed.setAccount {state : AccountState} (wf : state.WellFormed) {address : Text}
    (valid : isValidAddress address state.network = true) (account : Account) :
    (state.setAccount address account).WellFormed := by
  refine ⟨?_, wf.txids⟩
  intro other otherAccount found
  simp only [AccountState.setAccount, Dict.get?_set] at found
  split at found
  · rename_i same
    subst same
    exact valid
  · exact wf.addresses other otherAccount found

/-- The change that an executed transaction makes to a state. -/
structure Moves (before : AccountState) (tx : Transaction) (after : AccountState) : Prop where
  network_eq : after.network = before.network
  confirmedTxids_eq : after.confirmedTxids = before.confirmedTxids
  balance : ∀ address, (after.accountOf address).balanceAtoms =
    (before.accountOf address).balanceAtoms
      - (if tx.senderAddress = address then tx.amountAtoms + tx.feeAtoms else 0)
      + (if tx.recipientAddress = address then tx.amountAtoms else 0)
  nonce : ∀ address, (after.accountOf address).nonce =
    (before.accountOf address).nonce + (if tx.senderAddress = address then 1 else 0)
  total : after.totalBalance = before.totalBalance - tx.feeAtoms

omit [Platform] in
/-- **The debits and credits of a transaction.** Sender, recipient and third parties are
told apart, and a transfer to oneself costs the fee. -/
theorem moves_of_moveBalances {state moved : AccountState} {tx : Transaction}
    (run : state.moveBalances tx = .ok moved) : state.Moves tx moved := by
  simp only [moveBalances] at run
  split at run
  · rename_i toSelf
    simp only [bind_eq_ok, pure_eq_ok, Account.new_eq_ok] at run
    obtain ⟨account, ⟨balance, nonce⟩, rfl⟩ := run
    refine ⟨rfl, rfl, ?_, ?_, ?_⟩
    · intro address
      rw [accountOf_setAccount, ← toSelf]
      split
      · rename_i here
        rw [balance, ← here]
        omega
      · omega
    · intro address
      rw [accountOf_setAccount]
      split
      · rename_i here
        rw [nonce, here]
      · omega
    · rw [totalBalance_setAccount, balance]
      omega
  · rename_i toOther
    simp only [bind_eq_ok, pure_eq_ok, raiseIf_eq_ok, exists_const, Account.new_eq_ok] at run
    obtain ⟨debited, ⟨debitedBalance, debitedNonce⟩, -, credited,
      ⟨creditedBalance, creditedNonce⟩, rfl⟩ := run
    refine ⟨rfl, rfl, ?_, ?_, ?_⟩
    · intro address
      rw [accountOf_setAccount, accountOf_setAccount]
      by_cases recipient : tx.recipientAddress = address
      · have notSender : tx.senderAddress ≠ address := fun h => toOther (h.trans recipient.symm)
        rw [if_pos recipient, if_pos recipient, if_neg notSender, creditedBalance, recipient]
        omega
      · rw [if_neg recipient, if_neg recipient]
        split
        · rename_i sender
          rw [debitedBalance, sender]
          omega
        · omega
    · intro address
      rw [accountOf_setAccount, accountOf_setAccount]
      by_cases recipient : tx.recipientAddress = address
      · have notSender : tx.senderAddress ≠ address := fun h => toOther (h.trans recipient.symm)
        rw [if_pos recipient, if_neg notSender, creditedNonce, recipient]
        omega
      · rw [if_neg recipient]
        split
        · rename_i sender
          rw [debitedNonce, sender]
        · omega
    · rw [totalBalance_setAccount, totalBalance_setAccount, accountOf_setAccount, if_neg toOther,
        debitedBalance, creditedBalance]
      omega

omit [Platform] in
theorem WellFormed.moveBalances {state moved : AccountState} {tx : Transaction}
    (wf : state.WellFormed) (sender : isValidAddress tx.senderAddress state.network = true)
    (recipient : isValidAddress tx.recipientAddress state.network = true)
    (run : state.moveBalances tx = .ok moved) : moved.WellFormed := by
  simp only [AccountState.moveBalances] at run
  split at run
  · simp only [bind_eq_ok, pure_eq_ok] at run
    obtain ⟨account, -, rfl⟩ := run
    exact wf.setAccount sender account
  · simp only [bind_eq_ok, pure_eq_ok, raiseIf_eq_ok, exists_const] at run
    obtain ⟨debited, -, -, credited, -, rfl⟩ := run
    exact (wf.setAccount sender debited).setAccount recipient credited

omit [Platform] in
theorem Agrees.moveBalances {first second : AccountState} (same : first.Agrees second)
    (tx : Transaction) :
    Simulates Agrees (first.moveBalances tx) (second.moveBalances tx) := by
  intro moved run
  simp only [AccountState.moveBalances, ← same.accountOf_eq] at run ⊢
  split at run
  · rename_i toSelf
    rw [if_pos toSelf]
    obtain ⟨account, created, eq⟩ := bind_eq_ok.mp run
    rw [pure_eq_ok] at eq
    exact ⟨_, bind_eq_ok.mpr ⟨account, created, rfl⟩, eq ▸ same.setAccount _ account⟩
  · rename_i toOther
    rw [if_neg toOther]
    simp only [bind_eq_ok, pure_eq_ok, raiseIf_eq_ok, exists_const] at run ⊢
    obtain ⟨debited, debitedOk, fits, credited, creditedOk, rfl⟩ := run
    exact ⟨_, ⟨debited, debitedOk, fits, credited, creditedOk, rfl⟩,
      (same.setAccount _ debited).setAccount _ credited⟩

/-! ## A batch -/

/-- One executed transaction: what it required, and the state after it. -/
structure Applied (before : AccountState) (tx : Transaction) (height : Int)
    (after : AccountState) : Prop where
  admitted : before.Admits tx height
  exists_moved : ∃ moved txid, before.moveBalances tx = .ok moved ∧ tx.txid = .ok txid ∧
    after = { moved with confirmedTxids := insert txid moved.confirmedTxids }

theorem applyNext_eq_ok {height : Int} {acc next : Int × AccountState} {tx : Transaction} :
    applyNext height acc tx = .ok next ↔
      acc.2.Applied tx height next.2 ∧ next.1 = acc.1 + tx.feeAtoms ∧ next.1 ≤ u64Max := by
  obtain ⟨fees, working⟩ := acc
  obtain ⟨fees', working'⟩ := next
  simp only [applyNext, applyValidated, bind_eq_ok, pure_eq_ok, validate_eq_ok, raiseIf_eq_ok,
    exists_const, not_lt, gt_iff_lt, Prod.mk.injEq]
  constructor
  · rintro ⟨admitted, _, ⟨moved, movedOk, txid, txidOk, rfl⟩, fits, rfl, rfl⟩
    exact ⟨⟨admitted, moved, txid, movedOk, txidOk, rfl⟩, rfl, fits⟩
  · rintro ⟨⟨admitted, moved, txid, movedOk, txidOk, rfl⟩, rfl, fits⟩
    exact ⟨admitted, _, ⟨moved, movedOk, txid, txidOk, rfl⟩, fits, rfl, rfl⟩

namespace Applied

variable {before after : AccountState} {tx : Transaction} {height : Int}

theorem moves (applied : before.Applied tx height after) :
    ∃ moved, before.Moves tx moved ∧ (∀ address, after.accountOf address = moved.accountOf address)
      ∧ after.network = before.network ∧ after.totalBalance = before.totalBalance - tx.feeAtoms := by
  obtain ⟨moved, txid, run, -, rfl⟩ := applied.exists_moved
  have effect := moves_of_moveBalances run
  exact ⟨moved, effect, fun _ => rfl, effect.network_eq, effect.total⟩

theorem network_eq (applied : before.Applied tx height after) : after.network = before.network := by
  obtain ⟨_, _, _, network, _⟩ := applied.moves
  exact network

theorem total (applied : before.Applied tx height after) :
    after.totalBalance = before.totalBalance - tx.feeAtoms := by
  obtain ⟨_, _, _, _, total⟩ := applied.moves
  exact total

theorem nonce (applied : before.Applied tx height after) (address : Text) :
    (after.accountOf address).nonce = (before.accountOf address).nonce +
      (if tx.senderAddress = address then 1 else 0) := by
  obtain ⟨_, effect, same, _, _⟩ := applied.moves
  rw [same, effect.nonce]

theorem balance (applied : before.Applied tx height after) (address : Text) :
    (after.accountOf address).balanceAtoms = (before.accountOf address).balanceAtoms
      - (if tx.senderAddress = address then tx.amountAtoms + tx.feeAtoms else 0)
      + (if tx.recipientAddress = address then tx.amountAtoms else 0) := by
  obtain ⟨_, effect, same, _, _⟩ := applied.moves
  rw [same, effect.balance]

/-- The executed transaction is added to the confirmed ones, and was not among them. -/
theorem confirmed (applied : before.Applied tx height after) :
    ∃ txid, tx.txid = .ok txid ∧ txid ∉ before.confirmedTxids ∧
      after.confirmedTxids = insert txid before.confirmedTxids := by
  obtain ⟨moved, txid, run, txidOk, rfl⟩ := applied.exists_moved
  exact ⟨txid, txidOk, applied.admitted.fresh txid txidOk,
    by rw [(moves_of_moveBalances run).confirmedTxids_eq]⟩

theorem wellFormed (applied : before.Applied tx height after) (wf : before.WellFormed) :
    after.WellFormed := by
  obtain ⟨moved, txid, run, txidOk, rfl⟩ := applied.exists_moved
  obtain ⟨_, senderOk⟩ := applied.admitted.valid.sender_valid
  obtain ⟨_, recipientOk⟩ := applied.admitted.valid.recipient_valid
  have wfMoved : moved.WellFormed :=
    wf.moveBalances (by simp [isValidAddress, senderOk, Except.toOption])
      (by simp [isValidAddress, recipientOk, Except.toOption]) run
  refine ⟨wfMoved.addresses, ?_⟩
  intro id member
  rcases Finset.mem_insert.mp member with rfl | old
  · exact Transaction.length_txid txidOk
  · exact wfMoved.txids id old

end Applied

theorem Agrees.applied {first second after : AccountState} (same : first.Agrees second)
    {tx : Transaction} {height : Int} (applied : first.Applied tx height after) :
    ∃ after', second.Applied tx height after' ∧ after.Agrees after' := by
  obtain ⟨moved, txid, run, txidOk, rfl⟩ := applied.exists_moved
  obtain ⟨moved', run', sameMoved⟩ := same.moveBalances tx moved run
  refine ⟨_, ⟨same.admits applied.admitted, moved', txid, run', txidOk, rfl⟩, ?_⟩
  exact ⟨sameMoved.network_eq, sameMoved.accounts, by rw [sameMoved.confirmedTxids_eq]⟩

/-- The rounds of a batch on the working copy, without the fee total. -/
inductive Batch (height : Int) : AccountState → List Transaction → AccountState → Prop
  | nil (state : AccountState) : Batch height state [] state
  | cons {before next after : AccountState} {tx : Transaction} {rest : List Transaction} :
      before.Applied tx height next → Batch height next rest after →
        Batch height before (tx :: rest) after

/-- The fees of a list of transactions. -/
def totalFees (transactions : List Transaction) : Int := (transactions.map Transaction.feeAtoms).sum

theorem foldlM_applyNext_eq_ok {height : Int} : ∀ {transactions : List Transaction}
    {acc final : Int × AccountState},
    transactions.foldlM (applyNext height) acc = .ok final → 
      Batch height acc.2 transactions final.2 ∧ final.1 = acc.1 + totalFees transactions
  | [], acc, final, run => by
      have eq : acc = final := by simpa using run
      subst eq
      exact ⟨.nil _, by simp [totalFees]⟩
  | tx :: rest, acc, final, run => by
      rw [List.foldlM_cons, bind_eq_ok] at run
      obtain ⟨next, one, others⟩ := run
      obtain ⟨applied, fee, -⟩ := applyNext_eq_ok.mp one
      obtain ⟨batch, fees⟩ := foldlM_applyNext_eq_ok others
      refine ⟨.cons applied batch, ?_⟩
      rw [fees, fee, totalFees, totalFees, List.map_cons, List.sum_cons]
      omega

namespace Batch

variable {height : Int} {before after : AccountState} {transactions : List Transaction}

theorem network_eq (batch : Batch height before transactions after) :
    after.network = before.network := by
  induction batch with
  | nil => rfl
  | cons applied _ ih => exact ih.trans applied.network_eq

theorem wellFormed (batch : Batch height before transactions after) (wf : before.WellFormed) :
    after.WellFormed := by
  induction batch with
  | nil => exact wf
  | cons applied _ ih => exact ih (applied.wellFormed wf)

/-- A batch takes its fees out of the accounts and nothing else. -/
theorem total (batch : Batch height before transactions after) :
    after.totalBalance = before.totalBalance - totalFees transactions := by
  induction batch with
  | nil => simp [totalFees]
  | cons applied _ ih =>
      rw [ih, applied.total, totalFees, totalFees, List.map_cons, List.sum_cons]
      omega

end Batch

/-- **A batch that succeeds executed its transactions one after another and collected
their fees.** -/
theorem applyTransactions_ok {state after : AccountState} {transactions : List Transaction}
    {height fees : Int} (run : state.applyTransactions transactions height = .ok (fees, after)) :
    (0 ≤ height ∧ height ≤ u64Max) ∧ state.WellFormed ∧ Batch height state transactions after ∧
      fees = totalFees transactions := by
  simp only [applyTransactions, bind_eq_ok, raiseIf_eq_ok, exists_const, pure_eq_ok, copy_eq_ok,
    not_not] at run
  obtain ⟨range, working, ⟨wf, rfl⟩, ⟨total, final⟩, rounds, eq⟩ := run
  obtain ⟨batch, collected⟩ := foldlM_applyNext_eq_ok rounds
  simp only [Prod.mk.injEq] at eq
  obtain ⟨rfl, rfl⟩ := eq
  have sameState : ({ working with
      accounts := final.accounts
      confirmedTxids := final.confirmedTxids } : AccountState) = final := by
    have network := batch.network_eq
    cases final
    simp only at network
    simp [network]
  refine ⟨range, wf, sameState ▸ batch, ?_⟩
  simpa using collected

theorem Agrees.applyTransactions {first second : AccountState} (same : first.Agrees second)
    (transactions : List Transaction) (height : Int) :
    Simulates (fun r r' => r.1 = r'.1 ∧ r.2.Agrees r'.2)
      (first.applyTransactions transactions height)
      (second.applyTransactions transactions height) := by
  have round : ∀ (acc acc' : Int × AccountState) (tx : Transaction),
      (acc.1 = acc'.1 ∧ acc.2.Agrees acc'.2) →
      Simulates (fun r r' => r.1 = r'.1 ∧ r.2.Agrees r'.2)
        (applyNext height acc tx) (applyNext height acc' tx) := by
    rintro ⟨fees, working⟩ ⟨fees', working'⟩ tx ⟨rfl, agree⟩ ⟨total, next⟩ run
    obtain ⟨applied, fee, fits⟩ := applyNext_eq_ok.mp run
    obtain ⟨next', applied', agree'⟩ := agree.applied applied
    exact ⟨(total, next'), applyNext_eq_ok.mpr ⟨applied', fee, fits⟩, rfl, agree'⟩
  rintro ⟨fees, after⟩ run
  simp only [AccountState.applyTransactions, bind_eq_ok, raiseIf_eq_ok, exists_const, pure_eq_ok,
    copy_eq_ok, not_not] at run ⊢
  obtain ⟨range, working, ⟨wf, rfl⟩, final, rounds, eq⟩ := run
  have start : ((0 : Int), working).1 = ((0 : Int), second).1 ∧
      ((0 : Int), working).2.Agrees ((0 : Int), second).2 := ⟨rfl, same⟩
  obtain ⟨final', rounds', feesEq, agree'⟩ := Simulates.foldlM round transactions start final rounds
  cases eq
  exact ⟨_, ⟨range, second, ⟨same.wellFormed wf, rfl⟩, final', rounds', rfl⟩, feesEq,
    same.network_eq, agree'.accounts, agree'.confirmedTxids_eq⟩

end Transactions

/-! ## The reward -/

theorem creditReward_eq_ok {state after : AccountState} {address : Text} {amount : Int} :
    state.creditReward address amount = .ok after ↔
      (∃ hash, decodeAddress address state.network = .ok hash) ∧
      (0 ≤ amount ∧ amount ≤ u64Max) ∧
      ((amount = 0 ∧ after = state) ∨ (amount ≠ 0 ∧ ∃ account : Account,
        account.balanceAtoms = (state.accountOf address).balanceAtoms + amount ∧
        account.nonce = (state.accountOf address).nonce ∧
        after = state.setAccount address account)) := by
  by_cases zero : amount = 0
  · subst zero
    simp only [creditReward, bind_eq_ok, rethrow_eq_ok, raiseIf_eq_ok, exists_const, if_true,
      pure_eq_ok, not_not, ne_eq, not_true_eq_false, false_and, or_false, true_and]
    constructor
    · rintro ⟨hash, decoded, range, rfl⟩
      exact ⟨⟨hash, decoded⟩, range, rfl⟩
    · rintro ⟨⟨hash, decoded⟩, range, rfl⟩
      exact ⟨hash, decoded, range, rfl⟩
  · simp only [creditReward, if_neg zero, bind_eq_ok, rethrow_eq_ok, raiseIf_eq_ok, exists_const,
      pure_eq_ok, not_not, Account.new_eq_ok, not_lt, gt_iff_lt]
    constructor
    · rintro ⟨hash, decoded, range, -, account, ⟨balance, nonce⟩, rfl⟩
      exact ⟨⟨hash, decoded⟩, range, .inr ⟨zero, account, balance, nonce, rfl⟩⟩
    · rintro ⟨⟨hash, decoded⟩, range, ⟨isZero, -⟩ | ⟨-, account, balance, nonce, rfl⟩⟩
      · exact absurd isZero zero
      · exact ⟨hash, decoded, range, balance ▸ account.balance_range.2, account,
          ⟨balance, nonce⟩, rfl⟩

/-- What a reward changes: one balance and the total, by its amount. -/
structure Rewarded (before : AccountState) (address : Text) (amount : Int)
    (after : AccountState) : Prop where
  network_eq : after.network = before.network
  confirmedTxids_eq : after.confirmedTxids = before.confirmedTxids
  balance : ∀ other, (after.accountOf other).balanceAtoms =
    (before.accountOf other).balanceAtoms + (if address = other then amount else 0)
  nonce : ∀ other, (after.accountOf other).nonce = (before.accountOf other).nonce
  total : after.totalBalance = before.totalBalance + amount
  wellFormed : before.WellFormed → after.WellFormed

theorem rewarded_of_creditReward {state after : AccountState} {address : Text} {amount : Int}
    (run : state.creditReward address amount = .ok after) : state.Rewarded address amount after := by
  obtain ⟨⟨hash, decoded⟩, -, nothing | written⟩ := creditReward_eq_ok.mp run
  · obtain ⟨rfl, rfl⟩ := nothing
    exact ⟨rfl, rfl, by simp, fun _ => rfl, by simp, id⟩
  · obtain ⟨-, account, balance, nonce, rfl⟩ := written
    refine ⟨rfl, rfl, ?_, ?_, ?_, ?_⟩
    · intro other
      rw [accountOf_setAccount]
      split
      · rename_i here
        rw [balance, here]
      · omega
    · intro other
      rw [accountOf_setAccount]
      split
      · rename_i here
        rw [nonce, here]
      · rfl
    · rw [totalBalance_setAccount, balance]
      omega
    · intro wf
      exact wf.setAccount (by simp [isValidAddress, decoded, Except.toOption]) account

theorem Agrees.creditReward {first second : AccountState} (same : first.Agrees second)
    (address : Text) (amount : Int) :
    Simulates Agrees (first.creditReward address amount) (second.creditReward address amount) := by
  intro after run
  obtain ⟨decoded, range, nothing | written⟩ := creditReward_eq_ok.mp run
  · obtain ⟨rfl, rfl⟩ := nothing
    exact ⟨second, creditReward_eq_ok.mpr ⟨same.network_eq ▸ decoded, range, .inl ⟨rfl, rfl⟩⟩, same⟩
  · obtain ⟨nonzero, account, balance, nonce, rfl⟩ := written
    rw [same.accountOf_eq] at balance nonce
    exact ⟨_, creditReward_eq_ok.mpr ⟨same.network_eq ▸ decoded, range,
      .inr ⟨nonzero, account, balance, nonce, rfl⟩⟩, same.setAccount address account⟩

end AccountState

/-! ## Values for instances -/

/-- An account that owns ten atoms and has sent nothing. -/
def Account.tenAtoms : Account := ⟨10, 0, by decide, zero.nonce_range⟩

/-- An account that owns a hundred atoms and has sent nothing. -/
def Account.hundredAtoms : Account := ⟨100, 0, by decide, zero.nonce_range⟩

namespace Payer

/-- A transfer of five atoms from the payer to the genesis miner, with its signature. -/
def transfer (nonce : Int) (signature : Nat) : Transaction where
  version := transactionVersion
  chainId := testnet.chainId
  senderPublicKey :=
    BigEndian.toBytes 32 0x9ea680fcea122355acf48111125540a620c625ece19de2cf516db6b4b758323f
  senderAddress := text "tour1n4zymvi7ylnlymbudptrara7lgl66iihknwjosdt"
  recipientAddress := testnetGenesisMinerAddress
  amountAtoms := 5
  feeAtoms := 1
  nonce
  validUntilHeight := 1000
  signature := BigEndian.toBytes 64 signature

/-- The first transfer of the payer. -/
def firstTransfer : Transaction := transfer 0
  0xbd11f7f5e39e898028c904bb3c5091bcc916e83cca780ee0f709f7c9940449fa52220896e4e967f5645da2db67b0c5079571c1f8df0d20a4d93b8a197d97550e

/-- The transfer after it. -/
def secondTransfer : Transaction := transfer 1
  0x8ed0f78df49a6460e59928b2d2d16f311955c5aa6a87522bdd34d6349a0340f296d051b2c01cd24a791baf21bbe5385938f3a195c031aa29c9d8c28ccf176c0e

/-- A payment of another sender to the genesis miner, with a higher fee. -/
def payment : Transaction where
  version := transactionVersion
  chainId := testnet.chainId
  senderPublicKey := List.replicate 32 0
  senderAddress := text "tour1n5tgq6vn7brl253mr7ayxdu7ryqarfyuqwtpo7ua"
  recipientAddress := testnetGenesisMinerAddress
  amountAtoms := 5
  feeAtoms := 2
  nonce := 0
  validUntilHeight := 1000
  signature := List.replicate 64 0

/-- Both senders own a hundred atoms. -/
def payersState : AccountState :=
  ⟨testnet, (Dict.empty.set firstTransfer.senderAddress .hundredAtoms).set
    payment.senderAddress .hundredAtoms, ∅⟩

theorem payersState_wellFormed : payersState.WellFormed := by
  refine ⟨?_, fun _ member => absurd member (Finset.notMem_empty _)⟩
  intro address account found
  have owners : ∀ item ∈ payersState.accounts.items, isValidAddress item.1 testnet = true := by
    decide +kernel
  exact owners (address, account) (Dict.get?_eq_some.mp found)

end Payer

end OurCoin
