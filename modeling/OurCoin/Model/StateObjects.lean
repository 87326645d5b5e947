import OurCoin.Library.Stateful
import OurCoin.Model.State

/-!
# State objects

`state.py` once more, statement by statement on mutable objects. A state object holds
references to a dictionary and to a set; constructing one allocates both (`dict(…)`,
`set(…)`), writing to an account or to the confirmed IDs changes them in place, and the last
two statements of `apply_transactions` make the object refer to the containers of its working
copy. A statement that raises leaves behind what was written before it.
-/

set_option autoImplicit false

namespace OurCoin

open Raising Stateful

/-- The attributes of a state object. -/
structure StateObject where
  network : NetworkConfig
  accounts : Nat
  confirmedTxids : Nat

/-- The objects and containers by reference. References from `next` on are free. -/
structure Memory where
  objects : Nat → StateObject
  dicts : Nat → Dict Text Account
  sets : Nat → Finset Bytes
  next : Nat

namespace Memory

/-- What an object stands for. -/
def view (memory : Memory) (self : Nat) : AccountState where
  network := (memory.objects self).network
  accounts := memory.dicts (memory.objects self).accounts
  confirmedTxids := memory.sets (memory.objects self).confirmedTxids

/-- A new object with a dictionary and a set of its own. -/
def alloc (accounts : Dict Text Account) (confirmedTxids : Finset Bytes) (network : NetworkConfig)
    (memory : Memory) : Memory where
  objects := Function.update memory.objects memory.next ⟨network, memory.next, memory.next⟩
  dicts := Function.update memory.dicts memory.next accounts
  sets := Function.update memory.sets memory.next confirmedTxids
  next := memory.next + 1

/-- `self._accounts[address] = account`. -/
def setItem (self : Nat) (address : Text) (account : Account) (memory : Memory) : Memory :=
  let ref := (memory.objects self).accounts
  { memory with dicts := Function.update memory.dicts ref ((memory.dicts ref).set address account) }

/-- `self._confirmed_txids.add(txid)`. -/
def addTxid (self : Nat) (txid : Bytes) (memory : Memory) : Memory :=
  let ref := (memory.objects self).confirmedTxids
  { memory with sets := Function.update memory.sets ref (insert txid (memory.sets ref)) }

/-- `self._accounts = working._accounts` and `self._confirmed_txids =
working._confirmed_txids`. -/
def adopt (self working : Nat) (memory : Memory) : Memory :=
  let adopted : StateObject := { memory.objects self with
    accounts := (memory.objects working).accounts
    confirmedTxids := (memory.objects working).confirmedTxids }
  { memory with objects := Function.update memory.objects self adopted }

end Memory

namespace StateObject

/-- `AccountState(accounts, confirmed_txids, network=network)`: the new object, which is
allocated before it is checked. -/
def construct (accounts : Dict Text Account) (confirmedTxids : Finset Bytes)
    (network : NetworkConfig) : Stateful Raised Memory Nat := do
  let self ← read Memory.next
  update (Memory.alloc accounts confirmedTxids network)
  let _ ← lift (AccountState.new accounts confirmedTxids network)
  return self

/-- `validate` on the object. -/
def validate [Platform] (self : Nat) (tx : Transaction) (currentHeight : Int) :
    Stateful Raised Memory Unit := do
  let state ← read fun memory => memory.view self
  lift (state.validate tx currentHeight)

/-- The writes to the accounts in `_apply_validated`. -/
def moveBalances (self : Nat) (tx : Transaction) : Stateful Raised Memory Unit := do
  let state ← read fun memory => memory.view self
  let sender := state.accountOf tx.senderAddress
  let recipient := state.accountOf tx.recipientAddress
  if tx.senderAddress = tx.recipientAddress then do
    let account ← lift (Account.new (sender.balanceAtoms - tx.feeAtoms) (sender.nonce + 1))
    update (Memory.setItem self tx.senderAddress account)
    pure ()
  else do
    let debited ← lift
      (Account.new (sender.balanceAtoms - tx.amountAtoms - tx.feeAtoms) (sender.nonce + 1))
    update (Memory.setItem self tx.senderAddress debited)
    let recipientBalance := recipient.balanceAtoms + tx.amountAtoms
    lift (raiseIf (recipientBalance > u64Max) (stateError "recipient balance exceeds uint64"))
    let credited ← lift (Account.new recipientBalance recipient.nonce)
    update (Memory.setItem self tx.recipientAddress credited)
    pure ()

/-- `_apply_validated`: the writes of one transaction. -/
def applyValidated [Platform] (self : Nat) (tx : Transaction) : Stateful Raised Memory Int := do
  moveBalances self tx
  let txid ← lift tx.txid
  update (Memory.addTxid self txid)
  return tx.feeAtoms

/-- One round of `apply_transactions` on the fee total. -/
def applyNext [Platform] (working : Nat) (currentHeight : Int) (totalFees : Int)
    (tx : Transaction) : Stateful Raised Memory Int := do
  validate working tx currentHeight
  let fee ← applyValidated working tx
  lift (raiseIf (totalFees + fee > u64Max) (stateError "total transaction fees exceed uint64"))
  return totalFees + fee

/-- `apply_transactions`: a batch on a working copy that replaces the object at the end. -/
def applyTransactions [Platform] (self : Nat) (transactions : List Transaction)
    (currentHeight : Int) : Stateful Raised Memory Int := do
  lift (raiseIf (¬ (0 ≤ currentHeight ∧ currentHeight ≤ u64Max))
    (stateError "current height must be an unsigned 64-bit integer"))
  let state ← read fun memory => memory.view self
  let working ← construct state.accounts state.confirmedTxids state.network
  let totalFees ← transactions.foldlM (applyNext working currentHeight) 0
  update (Memory.adopt self working)
  return totalFees

end StateObject

end OurCoin
