import OurCoin.Node.Admission
import OurCoin.Node.Runs
import OurCoin.Wire.Blocks
import OurCoin.Wire.Canonical

/-!
# What is accepted can be relayed

Validation bounds the addresses, the chain id, the key, the signature and the number of
transactions. The frames, the envelope of a block and the fields of the records have limits
of their own. The rules of validation are the stricter ones.

* `Transaction.IntrinsicallyValid.inRange`: a valid transaction is within the limits of the
  decoders.
* `Chain.Refines.inRange`: so is every stored block.
* `Mempool.Reachable.genuine`: whatever is pending was valid once.
* `accepted_relayable`: every stored block fits a frame and is read back from it, with all of
  its parts, and so is every pending transaction.
-/

set_option autoImplicit false

namespace OurCoin

open Raising

variable [Platform]

/-! ## Within the limits of the decoders -/

/-- A canonical text that has an encoding fits its field. -/
theorem Canonical.fitsText {value : Text} {maxLength : Nat} (canonical : Canonical value maxLength)
    (encodes : ∃ written, encodeText value = .ok written) : FitsText value maxLength where
  normal := canonical.normal
  short := by
    obtain ⟨written, writtenOk⟩ := encodes
    rw [encodeText, canonical.normal, bind_eq_ok] at writtenOk
    obtain ⟨encoded, encodedOk, -⟩ := writtenOk
    exact ⟨encoded, encodedOk, canonical.short encoded encodedOk⟩

/-- **A valid transaction is within the limits of its decoder.** -/
theorem Transaction.IntrinsicallyValid.inRange {tx : Transaction}
    (valid : tx.IntrinsicallyValid testnet) : tx.InRange := by
  have readable : tx.Readable := valid.readable
  obtain ⟨_, -, ⟨encoded, encodes⟩, -⟩ := valid.encodable
  simp only [Transaction.toBytes, Transaction.signingBytes, bind_eq_ok, pure_eq_ok] at encodes
  obtain ⟨_, ⟨_, -, version, versionOk, chainId, chainIdOk, _, -, sender, senderOk, recipient,
    recipientOk, amount, amountOk, fee, feeOk, nonce, nonceOk, validUntil, validUntilOk, -⟩, -⟩ :=
    encodes
  exact {
    version := (encodeUnsigned_eq_ok.mp versionOk).1
    chainId := readable.chainId.fitsText ⟨_, chainIdOk⟩
    publicKey := readable.publicKey
    sender := readable.sender.fitsText ⟨_, senderOk⟩
    recipient := readable.recipient.fitsText ⟨_, recipientOk⟩
    amount := (encodeUnsigned_eq_ok.mp amountOk).1
    fee := (encodeUnsigned_eq_ok.mp feeOk).1
    nonce := (encodeUnsigned_eq_ok.mp nonceOk).1
    validUntil := (encodeUnsigned_eq_ok.mp validUntilOk).1
    signature := readable.signature }

theorem RewardTransaction.Readable.inRange {reward : RewardTransaction} {encoded : Bytes}
    (readable : reward.Readable) (encodes : reward.toBytes = .ok encoded) : reward.InRange := by
  simp only [RewardTransaction.toBytes, bind_eq_ok, pure_eq_ok] at encodes
  obtain ⟨_, -, version, versionOk, chainId, chainIdOk, height, heightOk, miner, minerOk, amount,
    amountOk, -⟩ := encodes
  exact {
    version := (encodeUnsigned_eq_ok.mp versionOk).1
    chainId := readable.chainId.fitsText ⟨_, chainIdOk⟩
    height := (encodeUnsigned_eq_ok.mp heightOk).1
    miner := readable.miner.fitsText ⟨_, minerOk⟩
    amount := (encodeUnsigned_eq_ok.mp amountOk).1 }

theorem BlockHeader.Readable.inRange {header : BlockHeader} (readable : header.Readable)
    (encodable : header.Encodable) : header.InRange where
  version := encodable.version_range
  chainId := readable.chainId.fitsText encodable.chainId_encodes
  height := encodable.height_range
  previous := encodable.previous_length
  transactionsRoot := encodable.transactionsRoot_length
  stateRoot := encodable.stateRoot_length
  timestamp := encodable.timestamp_range
  target := encodable.target_range
  nonce := encodable.nonce_range
  miner := readable.miner.fitsText encodable.miner_encodes

/-- The blocks of a branch have few enough transactions, which are valid. -/
theorem Replays.transactions_inRange {blocks : List Block} {branch : BranchState}
    (run : Replays testnet blocks branch) : ∀ block ∈ blocks,
      block.transactions.length ≤ maxBlockTransactionsWire ∧
        ∀ tx ∈ block.transactions, tx.InRange := by
  intro block member
  refine ⟨?_, fun tx txMember => (run.alive block member tx txMember).1.inRange⟩
  induction run with
  | genesis start =>
      obtain ⟨isGenesis, -, -, -, -⟩ := replayGenesis_ok start
      rw [genesisBlock_testnet] at isGenesis
      cases isGenesis
      rw [List.mem_singleton.mp member]
      exact Nat.zero_le _
  | @extend blocks branch next added before step ih =>
      rcases List.mem_append.mp member with old | new
      · exact ih old
      · rw [List.mem_singleton.mp new]
        obtain ⟨⟨target, execution, -, valid, -, -⟩, -, -, -⟩ := BranchState.extend_eq_ok.mp step
        have few := valid.header.transactions_le
        rw [maxBlockTransactions] at few
        rw [maxBlockTransactionsWire]
        omega

/-- **A stored block is within the limits of the decoders.** -/
theorem Chain.Refines.inRange {chain : Chain} (refines : chain.Refines) {hash : Bytes}
    {entry : ChainEntry} (stored : chain.entries.get? hash = some entry) : entry.block.InRange := by
  have wellMade := refines.wellMade stored
  obtain ⟨path, branch, ends⟩ := refines.exists_branch stored
  obtain ⟨front, split⟩ := ends.replays.exists_last
  have member : entry.block ∈ pathBlocks path := by
    rw [split, ends.block_eq]
    simp
  obtain ⟨few, transactions⟩ := ends.replays.transactions_inRange entry.block member
  have root := wellMade.root_ok
  simp only [transactionsRoot, RewardTransaction.txid, bind_eq_ok] at root
  obtain ⟨_, ⟨rewardBytes, rewardOk, -⟩, -⟩ := root
  exact {
    header := wellMade.header_readable.inRange (BlockHeader.exists_blockHash.mp ⟨hash, ends.hash_ok⟩)
    reward := wellMade.reward_readable.inRange rewardOk
    transactions
    few }

/-! ## Pending transactions -/

namespace Mempool

/-- The pools that calls of the methods lead to from an empty one, with the states of a
chain of the network. `clear` leads to the empty pool again. -/
inductive Reachable : Mempool → Prop
  | empty : Reachable Mempool.empty
  | add {pool pool' : Mempool} {tx : Transaction} {state : AccountState} {height : Int}
      {txid : Bytes} : state.network = testnet → Reachable pool →
        pool.add tx state height = .ok (txid, pool') → Reachable pool'
  | remove {pool : Mempool} (txid : Bytes) : Reachable pool → Reachable (pool.remove txid)
  | removeConfirmed {pool : Mempool} (transactions : List Transaction) :
      Reachable pool → Reachable (pool.removeConfirmed transactions).2
  | revalidate {pool : Mempool} {state : AccountState} (height : Int) :
      state.network = testnet → Reachable pool → Reachable (pool.revalidate state height).2

section Genuine

variable {pool pool' : Mempool} {state : AccountState} {height : Int}

theorem Genuine.of_empty (network : NetworkConfig) : empty.Genuine network := fun found => by
  cases found

theorem Genuine.remove {network : NetworkConfig} (genuine : pool.Genuine network) (txid : Bytes) :
    (pool.remove txid).Genuine network := fun found => genuine (get?_remove found).2

theorem Genuine.add (genuine : pool.Genuine state.network) {tx : Transaction} {txid : Bytes}
    (added : pool.add tx state height = .ok (txid, pool')) : pool'.Genuine state.network := by
  obtain ⟨accepts, rfl⟩ := add_eq_ok.mp added
  intro id other found
  rw [insert, Dict.get?_set] at found
  split at found
  · rename_i same
    cases found
    exact ⟨same ▸ accepts.txid_ok, accepts.valid⟩
  · exact genuine found

theorem Genuine.tryAdd (genuine : pool.Genuine state.network) (tx : Transaction) :
    (pool.tryAdd tx state height).2.Genuine state.network := by
  rw [Mempool.tryAdd]
  cases outcome : pool.add tx state height with
  | ok result => exact Genuine.add genuine outcome
  | error e =>
      dsimp only
      split
      · exact genuine
      · exact genuine

/-- `remove_confirmed` may raise on the way. What it removed until then is removed. -/
theorem Genuine.removeConfirmed {network : NetworkConfig} {transactions : List Transaction}
    (genuine : pool.Genuine network) : (pool.removeConfirmed transactions).2.Genuine network := by
  induction transactions generalizing pool with
  | nil => exact genuine
  | cons tx rest ih =>
      rw [Mempool.removeConfirmed]
      cases tx.txid with
      | error e => exact genuine
      | ok txid => exact ih (Genuine.remove genuine txid)

theorem Genuine.revalidateLoop {transactions removed : List Transaction}
    (genuine : pool.Genuine state.network) :
    (Mempool.revalidateLoop state height pool removed transactions).2.Genuine state.network := by
  induction transactions generalizing pool removed with
  | nil => exact genuine
  | cons tx rest ih =>
      have next : (pool.tryAdd tx state height).2.Genuine state.network :=
        Genuine.tryAdd genuine tx
      rw [Mempool.revalidateLoop]
      revert next
      rcases pool.tryAdd tx state height with ⟨e | ⟨_ | _⟩, pool'⟩
      · exact id
      · intro next
        exact @ih pool' (removed ++ [tx]) next
      · intro next
        exact @ih pool' removed next

end Genuine

/-- **Whatever is pending was valid once**, and is stored under its ID. -/
theorem Reachable.genuine {pool : Mempool} (reachable : pool.Reachable) : pool.Genuine testnet := by
  induction reachable with
  | empty => exact Genuine.of_empty testnet
  | add network _ added ih =>
      rw [← network] at ih ⊢
      exact Genuine.add ih added
  | remove txid _ ih => exact Genuine.remove ih txid
  | removeConfirmed transactions _ ih => exact Genuine.removeConfirmed ih
  | @revalidate pool state height network _ ih =>
      rw [Mempool.revalidate]
      cases pool.orderedTransactions with
      | error e => exact ih
      | ok previous =>
          rw [← network]
          exact Genuine.revalidateLoop (Genuine.of_empty state.network)

end Mempool

/-! ## Relaying -/

/-- A block whose envelope fits a frame, and that is read back from it and from its parts. -/
structure Block.Relayable (block : Block) : Prop where
  envelope : ∃ encoded, encodeBlock block = .ok encoded ∧ encoded.length ≤ maxFramePayload ∧
    decodeBlock encoded = .ok block
  header : ReadsBack BlockHeader.toBytes BlockHeader.fromBytes block.header
  reward : ReadsBack RewardTransaction.toBytes RewardTransaction.fromBytes block.rewardTransaction
  transactions : ∀ tx ∈ block.transactions,
    ReadsBack Transaction.toBytes Transaction.fromBytes tx

theorem Block.InRange.relayable {block : Block} (range : block.InRange) : block.Relayable where
  envelope := by
    obtain ⟨encoded, encodes, decodes⟩ := blockEnvelope_canonicalCodec.readBack range
    refine ⟨encoded, encodes, ?_, decodes⟩
    exact length_encodeBlock range.header.readable range.reward.readable
      (fun tx member => (range.transactions tx member).readable) range.few encodes
  header := BlockHeader.canonicalCodec.readBack range.header
  reward := RewardTransaction.canonicalCodec.readBack range.reward
  transactions tx member := Transaction.canonicalCodec.readBack (range.transactions tx member)

theorem Mempool.Genuine.readsBack {pool : Mempool} (genuine : pool.Genuine testnet) {txid : Bytes}
    {tx : Transaction} (found : pool.transactions.get? txid = some tx) :
    ReadsBack Transaction.toBytes Transaction.fromBytes tx :=
  Transaction.canonicalCodec.readBack (genuine found).2.inRange

/-- The stored blocks of a chain and the pending transactions of a pool can be relayed. -/
structure Relays (chain : Chain) (pool : Mempool) : Prop where
  blocks : ∀ hash entry, chain.entries.get? hash = some entry → entry.block.Relayable
  pending : ∀ txid tx, pool.transactions.get? txid = some tx →
    ReadsBack Transaction.toBytes Transaction.fromBytes tx

/-- **What is accepted can be relayed**: the blocks of a reachable chain and the transactions
of a reachable pool, and so those of a reachable node. -/
theorem accepted_relayable {chain : Chain} (chainReachable : chain.Reachable) {pool : Mempool}
    (poolReachable : pool.Reachable) {node : LocalNode} (nodeReachable : node.Reachable) :
    Relays chain pool ∧ Relays node.chain node.mempool := by
  have blocks : ∀ {chain : Chain}, chain.Reachable → ∀ hash entry,
      chain.entries.get? hash = some entry → entry.block.Relayable :=
    fun reachable hash entry stored => (reachable.refines.inRange stored).relayable
  constructor
  · refine ⟨blocks chainReachable, ?_⟩
    intro txid tx found
    exact Mempool.Genuine.readsBack poolReachable.genuine found
  · have inv := nodeReachable.invariant
    refine ⟨blocks inv.chain_reachable, ?_⟩
    intro txid tx found
    obtain ⟨state, stateOk, sound⟩ := inv.pool_sound
    obtain ⟨path, branch, state', ends, stateOk', same, -⟩ :=
      inv.chain_reachable.refines.exists_state
    rw [stateOk] at stateOk'
    cases stateOk'
    have network : state.network = testnet := same.network_eq.trans ends.replays.network_eq
    have genuine : node.mempool.Genuine state.network := sound.genuine
    rw [network] at genuine
    exact Mempool.Genuine.readsBack genuine found

omit [Platform] in
/-- A chain with two transfers and a side branch, and a pool with three payments. -/
theorem accepted_relayable_payments : ∃ txid pool, Mempool.paymentsPool = .ok (txid, pool) ∧
    pool.transactions.values =
      [Payer.firstTransfer, Payer.secondTransfer, Payer.payment] ∧
    @Relays trustingPlatform Payer.branchedChain pool ∧
    @Relays trustingPlatform genesisChain Mempool.empty := by
  obtain ⟨txid, pool, filled, pending, -⟩ := Mempool.exists_paymentsPool
  obtain ⟨first, firstOk, rest⟩ := bind_eq_ok.mp filled
  obtain ⟨second, secondOk, thirdOk⟩ := bind_eq_ok.mp rest
  have built := @Mempool.Reachable.add trustingPlatform _ _ _ _ _ _ rfl
    (@Mempool.Reachable.add trustingPlatform _ _ _ _ _ _ rfl
      (@Mempool.Reachable.add trustingPlatform _ _ _ _ _ _ rfl
        (@Mempool.Reachable.empty trustingPlatform) firstOk) secondOk) thirdOk
  have started := @Chain.init_testnet trustingPlatform
  have node : @LocalNode.Reachable trustingPlatform ⟨genesisChain, Mempool.empty, none⟩ := by
    apply @LocalNode.Reachable.inMemory trustingPlatform
    simp only [LocalNode.new, started]
    rfl
  exact ⟨txid, pool, filled, pending,
    @accepted_relayable trustingPlatform _ Payer.branchedChain_reachable _ built _ node⟩

end OurCoin
