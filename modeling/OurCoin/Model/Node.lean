import OurCoin.Model.Storage

/-!
# The local node

`node.py` and the part of `wallet.py` that signs: a node joins a chain, an optional
database and the pool of pending transactions. A method changes the node step by step,
so its outcome carries the node also when it raises.
-/

set_option autoImplicit false

namespace OurCoin

open Raising Transactions

def defaultTransactionLifetimeBlocks : Int := 100

/-- `NodeError(message)`. -/
def nodeError (message : String) : Raised := ⟨.nodeError, message⟩

/-- A wallet with the key it signs with. -/
structure Wallet where
  network : NetworkConfig
  privateKeyBytes : Bytes
  publicKey : Bytes
  address : Text

/-- `Wallet(name, private_key_bytes, network=network)`. -/
def Wallet.new [Platform] (privateKeyBytes : Bytes) (network : NetworkConfig) :
    Except Raised Wallet := do
  raiseIf (privateKeyBytes.length ≠ privateKeyLength)
    ⟨.walletError, "private key must be exactly 32 bytes"⟩
  let publicKey ← publicKeyFromPrivate privateKeyBytes
  return { network, privateKeyBytes, publicKey, address := ← addressFromPublicKey publicKey network }

/-- A signed transfer from the address of the wallet. -/
def Wallet.createTransaction [Platform] (wallet : Wallet) (recipientAddress : Text)
    (amountAtoms feeAtoms nonce validUntilHeight : Int) : Except Raised Transaction :=
  createSignedTransaction wallet.privateKeyBytes recipientAddress amountAtoms feeAtoms nonce
    validUntilHeight wallet.network

/-- A local node with optional persistence. -/
structure LocalNode where
  chain : Chain
  mempool : Mempool
  storage : Option SQLiteChainStorage

/-- A mined block and what the chain said of it. -/
structure MiningResult where
  block : Block
  update : ChainUpdate

namespace LocalNode

/-- `LocalNode(network=network, storage=storage)`. -/
def new [Platform] (network : NetworkConfig) (storage : Option SQLiteChainStorage) :
    Except Raised LocalNode :=
  match storage with
  | none => do return ⟨← Chain.init network, Mempool.empty, none⟩
  | some storage => do
    raiseIf (storage.network ≠ network) (nodeError "storage belongs to another network")
    return ⟨← storage.loadChain, Mempool.empty, some storage⟩

/-- Offer a transaction to the pool for the next height. -/
def submitTransaction [Platform] (node : LocalNode) (tx : Transaction) :
    Outcome Raised LocalNode Bytes :=
  let added : Except Raised (Bytes × Mempool) := do
    let state ← node.chain.state
    rethrow (reraiseSame (· == .mempoolError) .nodeError)
      (node.mempool.add tx state (node.chain.height + 1))
  match added with
  | .error e => (.error e, node)
  | .ok (txid, mempool) => (.ok txid, { node with mempool })

/-- The transaction that `send` signs. -/
def createTransaction [Platform] (node : LocalNode) (wallet : Wallet) (recipientAddress : Text)
    (amountAtoms feeAtoms validForBlocks : Int) : Except Raised Transaction := do
  raiseIf (wallet.network ≠ node.chain.network) (nodeError "wallet belongs to another network")
  raiseIf (validForBlocks < 0)
    (nodeError "transaction lifetime must be a non-negative integer")
  let validUntilHeight := node.chain.height + 1 + validForBlocks
  raiseIf (validUntilHeight > u64Max) (nodeError "transaction lifetime exceeds the height range")
  let nonce ← node.mempool.nextNonce wallet.address (← node.chain.state)
  rethrow (reraiseSame ErrorClass.isValueError .nodeError)
    (wallet.createTransaction recipientAddress amountAtoms feeAtoms nonce validUntilHeight)

/-- Create a transfer with the next nonce of the wallet, and offer it. -/
def send [Platform] (node : LocalNode) (wallet : Wallet) (recipientAddress : Text)
    (amountAtoms feeAtoms validForBlocks : Int) : Outcome Raised LocalNode Transaction :=
  match node.createTransaction wallet recipientAddress amountAtoms feeAtoms validForBlocks with
  | .error e => (.error e, node)
  | .ok tx =>
    match node.submitTransaction tx with
    | (.error e, node) => (.error e, node)
    | (.ok _, node) => (.ok tx, node)

/-! ## Submitting a block -/

/-- The transactions of stored blocks, in the order of the hashes. -/
def transactionsOf (chain : Chain) (hashes : List Bytes) : Except Raised (List Transaction) := do
  let blocks ← hashes.mapM chain.getBlock
  return blocks.flatMap fun block => block.transactions

/-- `for transaction in disconnected_transactions`: add again what is neither confirmed
nor pending. -/
def readdDisconnected [Platform] (state : AccountState) (executionHeight : Int) :
    Mempool → List Transaction → Outcome Raised Mempool Unit
  | pool, [] => (.ok (), pool)
  | pool, tx :: rest =>
    match tx.txid with
    | .error e => (.error e, pool)
    | .ok txid =>
      if state.containsTransaction txid = true then readdDisconnected state executionHeight pool rest
      else if pool.contains txid = true then readdDisconnected state executionHeight pool rest
      else
        match pool.tryAdd tx state executionHeight with
        | (.error e, pool) => (.error e, pool)
        | (.ok _, pool) => readdDisconnected state executionHeight pool rest

/-- Bring the pool in line with a new active tip: remove what was confirmed, revalidate
the rest, and add the disconnected transactions again. -/
def reconcilePool [Platform] (chain : Chain) (pool : Mempool) (update : ChainUpdate) :
    Outcome Raised Mempool Unit :=
  let read : Except Raised (List Transaction × List Transaction) := do
    return (← transactionsOf chain update.connected,
      ← transactionsOf chain update.disconnected.reverse)
  match read with
  | .error e => (.error e, pool)
  | .ok (connectedTransactions, disconnectedTransactions) =>
    match pool.removeConfirmed connectedTransactions with
    | (.error e, pool) => (.error e, pool)
    | (.ok (), pool) =>
      match chain.state with
      | .error e => (.error e, pool)
      | .ok activeState =>
        match pool.revalidate activeState (chain.height + 1) with
        | (.error e, pool) => (.error e, pool)
        | (.ok _, pool) =>
          readdDisconnected activeState (chain.height + 1) pool disconnectedTransactions

/-- What `submit_block` does after the chain was switched. -/
def finishSubmit [Platform] (node : LocalNode) (update : ChainUpdate) :
    Outcome Raised LocalNode ChainUpdate :=
  if update.becameActive = false then (.ok update, node)
  else
    match reconcilePool node.chain node.mempool update with
    | (.error e, mempool) => (.error e, { node with mempool })
    | (.ok (), mempool) => (.ok update, { node with mempool })

/-- Add a block and reconcile pending transactions after an active-tip change. The faults
are those that the statements of a persistent node meet. -/
def submitBlock [Platform] (node : LocalNode) (block : Block) (faults : List Fault) :
    Outcome Raised LocalNode ChainUpdate :=
  match node.storage with
  | none =>
    match node.chain.addBlock block with
    | (.error e, chain) => (.error e, { node with chain })
    | (.ok update, chain) => finishSubmit { node with chain } update
  | some storage =>
    match node.chain.copy with
    | .error e => (.error e, node)
    | .ok candidate =>
      match candidate.addBlock block with
      | (.error e, _) => (.error e, node)
      | (.ok update, candidate) =>
        match storage.persistChainUpdate candidate update faults with
        | (.error e, storage) => (.error e, { node with storage := some storage })
        | (.ok _, storage) =>
          finishSubmit { node with chain := candidate, storage := some storage } update

/-! ## Mining -/

/-- The block that `mine` finds. Without a timestamp the candidate comes one target
interval after the tip. -/
def mineCandidate [Platform] (node : LocalNode) (minerAddress : Text) (timestamp : Option Int)
    (maxTransactions maxAttempts : Int) : Except Raised Block := do
  raiseIf (¬ (0 ≤ maxTransactions ∧ maxTransactions ≤ maxBlockTransactions))
    (nodeError "block transaction limit is outside the allowed range")
  let selected ← node.mempool.select (← node.chain.state) (node.chain.height + 1) maxTransactions
  let candidateTimestamp := timestamp.getD (node.chain.tip.header.timestamp + targetBlockSeconds)
  let candidate ← node.chain.buildCandidate minerAddress selected candidateTimestamp none
  mineBlock candidate maxAttempts

/-- Build a candidate from the pool, mine it and submit the block. -/
def mine [Platform] (node : LocalNode) (minerAddress : Text) (timestamp : Option Int)
    (maxTransactions maxAttempts : Int) (faults : List Fault) :
    Outcome Raised LocalNode MiningResult :=
  match node.mineCandidate minerAddress timestamp maxTransactions maxAttempts with
  | .error e => (.error e, node)
  | .ok block =>
    match node.submitBlock block faults with
    | (.error e, node) => (.error e, node)
    | (.ok update, node) => (.ok ⟨block, update⟩, node)

/-- `close()`. -/
def close (node : LocalNode) : LocalNode :=
  { node with storage := node.storage.map SQLiteChainStorage.close }

end LocalNode

end OurCoin
