import OurCoin.Model.State

/-!
# Pending transactions

`mempool.py`: the nonce-aware pool of validated pending transactions, its revalidation
against a new state, and the selection of transactions for a block.

`add` and `remove` change the pool only after every check. `remove_confirmed` and
`revalidate` change it step by step, so their results carry the pool also when they
raise.
-/

set_option autoImplicit false

namespace OurCoin

open Raising

def maxMempoolTransactions : Nat := 50000
def maxPendingPerSender : Nat := 64

/-- `MempoolError(message)`. -/
def mempoolError (message : String) : Raised := ⟨.mempoolError, message⟩

/-- `sorted(values, key=key)`: the keys are computed first, and the sort is stable. -/
def sortedBy {α κ : Type} [LinearOrder κ] (key : α → Except Raised κ) (values : List α) :
    Except Raised (List α) := do
  let keyed ← values.mapM fun value => do return (← key value, value)
  return (keyed.insertionSort fun first second => first.1 ≤ second.1).map Prod.snd

/-- Bytes as a sort key. -/
def bytesKey (bytes : Bytes) : List Nat := bytes.map UInt8.toNat

/-- A nonce-aware in-memory pool. -/
structure Mempool where
  transactions : Dict Bytes Transaction
  bySenderNonce : Dict (Text × Int) Bytes

namespace Mempool

/-- `Mempool()`. -/
def empty : Mempool := ⟨Dict.empty, Dict.empty⟩

/-- `len(pool)`. -/
def size (pool : Mempool) : Nat := pool.transactions.size

/-- `contains(txid)`. -/
def contains (pool : Mempool) (txid : Bytes) : Bool := pool.transactions.contains txid

/-- `transactions()`: by sender, nonce and ID. -/
def orderedTransactions [Platform] (pool : Mempool) : Except Raised (List Transaction) :=
  sortedBy (fun tx => do
    return (toLex (tx.senderAddress, toLex (tx.nonce, bytesKey (← tx.txid))) :
      Text ×ₗ Int ×ₗ List Nat)) pool.transactions.values

/-- The pending transactions of a sender by nonce. -/
def senderTransactions (pool : Mempool) (senderAddress : Text) : List Transaction :=
  (pool.transactions.values.filter fun tx => tx.senderAddress = senderAddress).insertionSort
    fun first second => first.nonce ≤ second.nonce

/-- The loop of `next_nonce` over the pending transactions. -/
def nextNonceLoop : Int → List Transaction → Except Raised Int
  | expected, [] => .ok expected
  | expected, tx :: rest =>
    if tx.nonce ≠ expected then .ok expected
    else if expected = u64Max then .error (mempoolError "account nonce is exhausted")
    else nextNonceLoop (expected + 1) rest

/-- The nonce that the next transaction of a sender needs. -/
def nextNonce (pool : Mempool) (senderAddress : Text) (state : AccountState) :
    Except Raised Int := do
  let account ← state.getAccount senderAddress
  raiseIf (account.nonce = u64Max) (mempoolError "account nonce is exhausted")
  nextNonceLoop account.nonce (pool.senderTransactions senderAddress)

/-- The amounts and fees of pending transactions. -/
def reservedAtoms (pending : List Transaction) : Int :=
  (pending.map fun tx => tx.amountAtoms + tx.feeAtoms).sum

/-- Validate a transaction and add it: its ID and the new pool. -/
def add [Platform] (pool : Mempool) (tx : Transaction) (state : AccountState)
    (executionHeight : Int) : Except Raised (Bytes × Mempool) := do
  raiseIf (pool.size ≥ maxMempoolTransactions)
    (mempoolError "mempool transaction limit has been reached")
  rethrow (reraiseSame (· == .transactionError) .mempoolError)
    (validateTransaction tx executionHeight state.network)
  let txid ← tx.txid
  raiseIf (pool.contains txid = true) (mempoolError "transaction is already in the mempool")
  raiseIf (state.containsTransaction txid = true)
    (mempoolError "transaction has already been confirmed")
  let conflictKey := (tx.senderAddress, tx.nonce)
  raiseIf (pool.bySenderNonce.contains conflictKey = true)
    (mempoolError "another transaction already uses this sender nonce")
  let senderPending := pool.senderTransactions tx.senderAddress
  raiseIf (senderPending.length ≥ maxPendingPerSender)
    (mempoolError "sender pending transaction limit has been reached")
  let account ← state.getAccount tx.senderAddress
  raiseIf (account.nonce = u64Max) (mempoolError "account nonce is exhausted")
  let expectedNonce := account.nonce + senderPending.length
  raiseIf (expectedNonce > u64Max) (mempoolError "account nonce is exhausted")
  raiseIf (tx.nonce ≠ expectedNonce)
    (mempoolError "transaction nonce would create a pending gap")
  let pendingTotal := reservedAtoms senderPending + tx.amountAtoms + tx.feeAtoms
  raiseIf (pendingTotal > account.balanceAtoms)
    (mempoolError "pending transactions exceed the confirmed account balance")
  return (txid, {
    transactions := pool.transactions.set txid tx
    bySenderNonce := pool.bySenderNonce.set conflictKey txid })

/-- `remove(txid)`, without the removed transaction. -/
def remove (pool : Mempool) (txid : Bytes) : Mempool :=
  match pool.transactions.get? txid with
  | none => pool
  | some tx => {
      transactions := pool.transactions.pop txid
      bySenderNonce := pool.bySenderNonce.pop (tx.senderAddress, tx.nonce) }

/-- Remove the transactions of a block that are pending. -/
def removeConfirmed [Platform] (pool : Mempool) : List Transaction → Outcome Raised Mempool Unit
  | [] => (.ok (), pool)
  | tx :: rest =>
    match tx.txid with
    | .error e => (.error e, pool)
    | .ok txid => removeConfirmed (pool.remove txid) rest

/-- `try: self.add(...) except MempoolError`: the pool after one attempt, and whether the
transaction was added. -/
def tryAdd [Platform] (pool : Mempool) (tx : Transaction) (state : AccountState)
    (executionHeight : Int) : Outcome Raised Mempool Bool :=
  match pool.add tx state executionHeight with
  | .ok (_, pool) => (.ok true, pool)
  | .error e => if e.cls = .mempoolError then (.ok false, pool) else (.error e, pool)

/-- The loop of `revalidate` over the previous transactions, with the removed ones. -/
def revalidateLoop [Platform] (state : AccountState) (executionHeight : Int) :
    Mempool → List Transaction → List Transaction → Outcome Raised Mempool (List Transaction)
  | pool, removed, [] => (.ok removed, pool)
  | pool, removed, tx :: rest =>
    match pool.tryAdd tx state executionHeight with
    | (.error e, pool) => (.error e, pool)
    | (.ok true, pool) => revalidateLoop state executionHeight pool removed rest
    | (.ok false, pool) => revalidateLoop state executionHeight pool (removed ++ [tx]) rest

/-- Empty the pool and add its transactions again in order. -/
def revalidate [Platform] (pool : Mempool) (state : AccountState) (executionHeight : Int) :
    Outcome Raised Mempool (List Transaction) :=
  match pool.orderedTransactions with
  | .error e => (.error e, pool)
  | .ok previous => revalidateLoop state executionHeight empty [] previous

/-! ## Selection -/

/-- `grouped[sender][nonce] = transaction` over the pool. -/
def groupBySender (pool : Mempool) : Dict Text (Dict Int Transaction) :=
  pool.transactions.values.foldl (fun grouped tx =>
    grouped.set tx.senderAddress
      (((grouped.get? tx.senderAddress).getD Dict.empty).set tx.nonce tx)) Dict.empty

/-- The next transaction of every sender that is not blocked. -/
def eligibleHeads (working : AccountState) (blockedSenders : List Text) :
    List (Text × Dict Int Transaction) → Except Raised (List Transaction)
  | [] => .ok []
  | (senderAddress, byNonce) :: rest =>
    if senderAddress ∈ blockedSenders then eligibleHeads working blockedSenders rest
    else do
      let account ← working.getAccount senderAddress
      let others ← eligibleHeads working blockedSenders rest
      return (byNonce.get? account.nonce).toList ++ others

/-- Apply the first of the eligible transactions that applies, blocking the senders of
those before it. -/
def applyFirst [Platform] (executionHeight : Int) (working : AccountState)
    (blockedSenders : List Text) :
    List Transaction → Except Raised (Option Transaction × AccountState × List Text)
  | [] => .ok (none, working, blockedSenders)
  | tx :: rest =>
    match working.applyTransaction tx executionHeight with
    | .ok (_, applied) => .ok (some tx, applied, blockedSenders)
    | .error e =>
      if e.cls = .stateError then
        applyFirst executionHeight working (tx.senderAddress :: blockedSenders) rest
      else .error e

/-- `while len(selected) < max_count`, with the number of transactions still wanted.
Every round selects one or ends the loop. -/
def selectLoop [Platform] (executionHeight : Int) (grouped : Dict Text (Dict Int Transaction)) :
    Nat → AccountState → List Text → List Transaction → Except Raised (List Transaction)
  | 0, _, _, selected => .ok selected
  | wanted + 1, working, blockedSenders, selected => do
    let eligible ← eligibleHeads working blockedSenders grouped.items
    if eligible = [] then return selected
    else do
      let eligible ← sortedBy (fun tx => do
        return (toLex (-tx.feeAtoms, bytesKey (← tx.txid)) : Int ×ₗ List Nat)) eligible
      match ← applyFirst executionHeight working blockedSenders eligible with
      | (none, _, _) => return selected
      | (some tx, working, blockedSenders) =>
        selectLoop executionHeight grouped wanted working blockedSenders (selected ++ [tx])

/-- Select highest-fee eligible heads while applying them to a working copy. -/
def select [Platform] (pool : Mempool) (state : AccountState) (executionHeight : Int)
    (maxCount : Int) : Except Raised (List Transaction) := do
  raiseIf (maxCount < 0) (mempoolError "max_count must be a non-negative integer")
  if maxCount = 0 then return []
  else do
    let working ← state.copy
    selectLoop executionHeight pool.groupBySender maxCount.toNat working [] []

end Mempool

end OurCoin
