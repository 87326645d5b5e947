import OurCoin.Library.Dict
import OurCoin.Model.Block

/-!
# Account state

`account.py` and `state.py`: account values, the state container with its snapshots
and its state root, and the transitions of a reward and of a batch of transactions. A
batch is applied to a working copy, which replaces the state only when every
transaction succeeded.
-/

set_option autoImplicit false

namespace OurCoin

open Raising

/-! ## `account.py` -/

/-- `AccountError(message)`. -/
def accountError (message : String) : Raised := ⟨.accountError, message⟩

/-- An account balance and its exact next transaction nonce. -/
structure Account where
  balanceAtoms : Int
  nonce : Int
  balance_range : 0 ≤ balanceAtoms ∧ balanceAtoms ≤ u64Max
  nonce_range : 0 ≤ nonce ∧ nonce ≤ u64Max
  deriving DecidableEq

namespace Account

/-- `Account(balance_atoms=balanceAtoms, nonce=nonce)`. -/
def new (balanceAtoms nonce : Int) : Except Raised Account :=
  if balance_range : 0 ≤ balanceAtoms ∧ balanceAtoms ≤ u64Max then
    if nonce_range : 0 ≤ nonce ∧ nonce ≤ u64Max then
      .ok ⟨balanceAtoms, nonce, balance_range, nonce_range⟩
    else .error (accountError "account nonce must be an unsigned 64-bit integer")
  else .error (accountError "account balance must be an unsigned 64-bit integer")

/-- `Account()`. -/
def zero : Account := ⟨0, 0, by decide, by decide⟩

theorem new_eq_ok {balanceAtoms nonce : Int} {account : Account} :
    new balanceAtoms nonce = .ok account ↔
      account.balanceAtoms = balanceAtoms ∧ account.nonce = nonce := by
  constructor
  · intro created
    unfold new at created
    split at created
    · split at created
      · cases created
        exact ⟨rfl, rfl⟩
      · cases created
    · cases created
  · rintro ⟨rfl, rfl⟩
    simp [new, account.balance_range, account.nonce_range]

theorem ext_values {first second : Account} (balances : first.balanceAtoms = second.balanceAtoms)
    (nonces : first.nonce = second.nonce) : first = second := by
  cases first
  cases second
  simp only [mk.injEq]
  exact ⟨balances, nonces⟩

end Account

/-! ## `state.py` -/

def txidLength : Nat := 32
def stateLeafDomain : Bytes := (text "OURCOIN:STATE:ACCOUNT:V1").map UInt8.ofNat

/-- `StateError(message)`. -/
def stateError (message : String) : Raised := ⟨.stateError, message⟩

/-- `is_valid_address(address, network)`. -/
def isValidAddress (address : Text) (network : NetworkConfig) : Bool :=
  (decodeAddress address network).toOption.isSome

/-- A comparable immutable view of a state. -/
structure StateSnapshot where
  accounts : List (Text × Account)
  confirmedTxids : Finset Bytes
  deriving DecidableEq

/-- The state container. -/
structure AccountState where
  network : NetworkConfig
  accounts : Dict Text Account
  confirmedTxids : Finset Bytes

namespace AccountState

/-- `AccountState(accounts, confirmed_txids, network=network)`. -/
def new (accounts : Dict Text Account) (confirmedTxids : Finset Bytes) (network : NetworkConfig) :
    Except Raised AccountState := do
  raiseIf (∃ item ∈ accounts.items, isValidAddress item.1 network = false)
    (stateError "state contains an invalid network address")
  raiseIf (∃ txid ∈ confirmedTxids, txid.length ≠ txidLength)
    (stateError "confirmed transaction IDs must be 32 bytes")
  return { network, accounts, confirmedTxids }

/-- The accounts by address, and the confirmed IDs. -/
def snapshot (state : AccountState) : StateSnapshot where
  accounts := state.accounts.sortedItems
  confirmedTxids := state.confirmedTxids

/-- An independent state with the same accounts and IDs. -/
def copy (state : AccountState) : Except Raised AccountState :=
  new state.accounts state.confirmedTxids state.network

/-- The state that a snapshot was taken of. -/
def fromSnapshot (snapshot : StateSnapshot) (network : NetworkConfig) :
    Except Raised AccountState :=
  new (Dict.ofItems snapshot.accounts) snapshot.confirmedTxids network

/-- The hashed leaf of one account. -/
def stateLeaf [Platform] (address : Text) (account : Account) : Except Raised Bytes := do
  return sha256Digest ((← encodeBytes stateLeafDomain) ++ (← encodeText address) ++
    (← encodeU64 account.balanceAtoms) ++ (← encodeU64 account.nonce))

/-- Commit to sorted addresses and their balances and nonces. -/
def stateRoot [Platform] (state : AccountState) : Except Raised Bytes := do
  merkleRoot (← state.accounts.sortedItems.mapM fun item => stateLeaf item.1 item.2)

/-- `self._accounts.get(address, Account())`. -/
def accountOf (state : AccountState) (address : Text) : Account :=
  (state.accounts.get? address).getD Account.zero

/-- The account of an address, which is empty until it is first paid. -/
def getAccount (state : AccountState) (address : Text) : Except Raised Account := do
  let _ ← rethrow (reraiseAs (· == .addressError) .stateError
    "account lookup uses an invalid network address") (decodeAddress address state.network)
  return state.accountOf address

/-- `contains_transaction(txid)`. -/
def containsTransaction (state : AccountState) (txid : Bytes) : Bool :=
  decide (txid ∈ state.confirmedTxids)

/-- `self._accounts[address] = account`. -/
def setAccount (state : AccountState) (address : Text) (account : Account) : AccountState :=
  { state with accounts := state.accounts.set address account }

/-- Credit a consensus-authorized reward on a working state copy. -/
def creditReward (state : AccountState) (address : Text) (amountAtoms : Int) :
    Except Raised AccountState := do
  let _ ← rethrow (reraiseAs (· == .addressError) .stateError
    "reward uses an invalid network address") (decodeAddress address state.network)
  raiseIf (¬ (0 ≤ amountAtoms ∧ amountAtoms ≤ u64Max))
    (stateError "reward amount must be an unsigned 64-bit integer")
  if amountAtoms = 0 then return state
  else do
    let account := state.accountOf address
    let balance := account.balanceAtoms + amountAtoms
    raiseIf (balance > u64Max) (stateError "reward would overflow the account balance")
    return state.setAccount address (← Account.new balance account.nonce)

/-- Refuse a transaction that cannot be applied at this height. -/
def validate [Platform] (state : AccountState) (tx : Transaction) (currentHeight : Int) :
    Except Raised Unit := do
  rethrow (reraiseSame (· == .transactionError) .stateError)
    (validateTransaction tx currentHeight state.network)
  let txid ← tx.txid
  raiseIf (txid ∈ state.confirmedTxids) (stateError "transaction has already been confirmed")
  let sender := state.accountOf tx.senderAddress
  raiseIf (tx.nonce ≠ sender.nonce)
    (stateError "transaction nonce is not the account's exact next nonce")
  raiseIf (sender.nonce = u64Max) (stateError "account nonce is exhausted")
  raiseIf (sender.balanceAtoms < tx.amountAtoms + tx.feeAtoms)
    (stateError "account balance does not cover amount plus fee")

/-- The debits and credits of a validated transaction. -/
def moveBalances (state : AccountState) (tx : Transaction) : Except Raised AccountState := do
  let sender := state.accountOf tx.senderAddress
  let recipient := state.accountOf tx.recipientAddress
  if tx.senderAddress = tx.recipientAddress then
    return state.setAccount tx.senderAddress
      (← Account.new (sender.balanceAtoms - tx.feeAtoms) (sender.nonce + 1))
  else do
    let debited := state.setAccount tx.senderAddress
      (← Account.new (sender.balanceAtoms - tx.amountAtoms - tx.feeAtoms) (sender.nonce + 1))
    let recipientBalance := recipient.balanceAtoms + tx.amountAtoms
    raiseIf (recipientBalance > u64Max) (stateError "recipient balance exceeds uint64")
    return debited.setAccount tx.recipientAddress
      (← Account.new recipientBalance recipient.nonce)

/-- `_apply_validated`: the fee, and the state with balances, nonce and replay index
updated. -/
def applyValidated [Platform] (state : AccountState) (tx : Transaction) :
    Except Raised (Int × AccountState) := do
  let moved ← state.moveBalances tx
  let txid ← tx.txid
  return (tx.feeAtoms, { moved with confirmedTxids := insert txid moved.confirmedTxids })

/-- One round of `apply_transactions` on the fee total and the working copy. -/
def applyNext [Platform] (currentHeight : Int) (acc : Int × AccountState) (tx : Transaction) :
    Except Raised (Int × AccountState) := do
  acc.2.validate tx currentHeight
  let (fee, working) ← acc.2.applyValidated tx
  raiseIf (acc.1 + fee > u64Max) (stateError "total transaction fees exceed uint64")
  return (acc.1 + fee, working)

/-- Apply a batch to a copy. The result is the fee total and the state that replaces
the original; when the batch raises there is no such state. -/
def applyTransactions [Platform] (state : AccountState) (transactions : List Transaction)
    (currentHeight : Int) : Except Raised (Int × AccountState) := do
  raiseIf (¬ (0 ≤ currentHeight ∧ currentHeight ≤ u64Max))
    (stateError "current height must be an unsigned 64-bit integer")
  let working ← state.copy
  let (totalFees, working) ← transactions.foldlM (applyNext currentHeight) (0, working)
  return (totalFees, { state with
    accounts := working.accounts
    confirmedTxids := working.confirmedTxids })

/-- Apply one transaction: its fee and the state after it. -/
def applyTransaction [Platform] (state : AccountState) (tx : Transaction) (currentHeight : Int) :
    Except Raised (Int × AccountState) :=
  state.applyTransactions [tx] currentHeight

end AccountState

end OurCoin
