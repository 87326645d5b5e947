import OurCoin.Node.Submission

/-!
# Runs of a local node

A node is reachable when calls of its methods lead to it from a new node, which is
empty, or loaded from a database. The calls may raise, and the statements of a persistent
node may meet faults.

* `LocalNode.Reachable.invariant`: between calls the chain is a reachable one, the pool is
  sound for its active state, and no transaction is open.
* `LocalNode.Reachable.submitBlock_atomic`: a submission that raises changes nothing, and
  the walks along parent hashes that run after the insertion never fail.
* `LocalNode.Reachable.pool_invariant`: the pool against the active state.
-/

set_option autoImplicit false

namespace OurCoin

open Raising Transactions

variable [Platform]

/-! ## Loading -/

namespace SQLiteChainStorage

variable {storage : SQLiteChainStorage}

/-- One round of a replay leaves a reachable chain. -/
theorem replayRow_reachable {checkDerivedRecords isFirst : Bool} {chain chain' : Chain}
    {row : BlockRow} (reachable : chain.Reachable)
    (replayed : storage.replayRow checkDerivedRecords isFirst chain row = .ok chain') :
    chain'.Reachable := by
  simp only [replayRow, bind_eq_ok, pure_eq_ok] at replayed
  obtain ⟨block, -, _, -, _, -, _, -, next, step, _, -, rfl⟩ := replayed
  rw [replayBlock] at step
  split at step
  · simp only [bind_eq_ok, pure_eq_ok] at step
    obtain ⟨_, -, _, -, rfl⟩ := step
    exact reachable
  · cases outcome : chain.addBlock block with
    | mk result grown =>
        rw [outcome] at step
        cases result with
        | error e => cases step
        | ok update =>
            cases step
            have added := Chain.Reachable.addBlock block reachable
            rw [outcome] at added
            exact added

/-- **Whatever the database holds, a loaded chain is a reachable one.** -/
theorem loadChain_reachable {chain : Chain} (network_eq : storage.network = testnet)
    (loaded : storage.loadChain = .ok chain) : chain.Reachable := by
  simp only [loadChain, bind_eq_ok, pure_eq_ok] at loaded
  obtain ⟨_, -, _, -, _, -, replayed, blocksOk, _, -, rfl⟩ := loaded
  rw [replayBlocks] at blocksOk
  cases rows : storage.tables.blockRows with
  | nil =>
      rw [rows] at blocksOk
      cases blocksOk
  | cons first rest =>
      simp only [rows, replayRows, bind_eq_ok] at blocksOk
      obtain ⟨started, startOk, opened, firstOk, restOk⟩ := blocksOk
      rw [network_eq] at startOk
      exact @foldlM_invariant _ _ _ _ (fun _ chain => chain.Reachable)
        (fun _ _ _ _ reachable step => replayRow_reachable reachable step) _ _ _
        (replayRow_reachable (.init startOk) firstOk) restOk

end SQLiteChainStorage

namespace LocalNode

/-! ## Runs -/

/-- The nodes that calls of the methods lead to. A persistent node starts with what its
database holds, which is between two transactions. -/
inductive Reachable : LocalNode → Prop
  | inMemory {node : LocalNode} : LocalNode.new testnet none = .ok node → Reachable node
  | persistent {storage : SQLiteChainStorage} {node : LocalNode} :
      storage.connection.working = none → LocalNode.new testnet (some storage) = .ok node →
        Reachable node
  | submitTransaction {node : LocalNode} (tx : Transaction) :
      Reachable node → Reachable (node.submitTransaction tx).2
  | send {node : LocalNode} (wallet : Wallet) (recipientAddress : Text)
      (amountAtoms feeAtoms validForBlocks : Int) : Reachable node →
        Reachable (node.send wallet recipientAddress amountAtoms feeAtoms validForBlocks).2
  | submitBlock {node : LocalNode} (block : Block) (faults : List Fault) :
      Reachable node → Reachable (node.submitBlock block faults).2
  | mine {node : LocalNode} (minerAddress : Text) (timestamp : Option Int)
      (maxTransactions maxAttempts : Int) (faults : List Fault) : Reachable node →
        Reachable (node.mine minerAddress timestamp maxTransactions maxAttempts faults).2
  | close {node : LocalNode} : Reachable node → Reachable node.close

namespace Invariant

variable {node : LocalNode}

/-- A new node has an empty pool. -/
theorem new {storage : Option SQLiteChainStorage}
    (idle : ∀ storage' ∈ storage, storage'.connection.working = none)
    (created : LocalNode.new testnet storage = .ok node) : node.Invariant := by
  have made : node.chain.Reachable ∧ node.mempool = Mempool.empty ∧ node.storage = storage := by
    cases storage with
    | none =>
        simp only [LocalNode.new, bind_eq_ok, pure_eq_ok] at created
        obtain ⟨chain, started, rfl⟩ := created
        exact ⟨.init started, rfl, rfl⟩
    | some storage =>
        simp only [LocalNode.new, bind_eq_ok, pure_eq_ok, raiseIf_eq_ok, exists_const,
          not_not] at created
        obtain ⟨network_eq, chain, loaded, rfl⟩ := created
        exact ⟨SQLiteChainStorage.loadChain_reachable network_eq loaded, rfl, rfl⟩
  obtain ⟨reachable, pool, kept⟩ := made
  obtain ⟨_, _, state, -, stateOk, -, -⟩ := reachable.refines.exists_state
  exact ⟨reachable, ⟨state, stateOk, pool ▸ .of_empty state _⟩, kept ▸ idle⟩

/-- An accepted transaction keeps the invariant, and a refused one changes nothing. -/
theorem submitTransaction (inv : node.Invariant) (tx : Transaction) :
    (node.submitTransaction tx).2.Invariant := by
  obtain ⟨state, stateOk, sound⟩ := inv.pool_sound
  rw [LocalNode.submitTransaction, stateOk, ok_bind]
  cases outcome : rethrow (reraiseSame (· == .mempoolError) .nodeError)
      (node.mempool.add tx state (node.chain.height + 1)) with
  | error e => exact inv
  | ok added =>
      obtain ⟨txid, pool⟩ := added
      rw [rethrow_eq_ok] at outcome
      exact ⟨inv.chain_reachable, ⟨state, stateOk, sound.add outcome⟩, inv.storage_idle⟩

theorem send (inv : node.Invariant) (wallet : Wallet) (recipientAddress : Text)
    (amountAtoms feeAtoms validForBlocks : Int) :
    (node.send wallet recipientAddress amountAtoms feeAtoms validForBlocks).2.Invariant := by
  rw [LocalNode.send]
  split
  · exact inv
  · rename_i tx _
    have after := inv.submitTransaction tx
    split
    · rename_i outcome
      rwa [outcome] at after
    · rename_i outcome
      rwa [outcome] at after

/-- A submission keeps the invariant, whether it raises or not. -/
theorem submitBlock (inv : node.Invariant) (block : Block) (faults : List Fault) :
    (node.submitBlock block faults).2.Invariant := by
  have refines := inv.chain_reachable.refines
  obtain ⟨state, stateOk, sound⟩ := inv.pool_sound
  have idle : ∀ {chain : Chain} {update : ChainUpdate} {storage : Option SQLiteChainStorage},
      Persists node.storage chain update faults storage →
        ∀ after ∈ storage, after.connection.working = none := by
    intro chain update storage persists after member
    cases before : node.storage with
    | none =>
        rw [before] at persists
        rw [Option.mem_def, show storage = none from persists] at member
        cases member
    | some opened =>
        rw [before] at persists
        obtain ⟨inserted, persisted, returned, rfl⟩ := persists
        cases member
        exact SQLiteChainStorage.persistChainUpdate_idle (inv.storage_idle opened before) returned
  have reachable := Chain.Reachable.addBlock block inv.chain_reachable
  rcases inv.submitBlock_cases block faults with ⟨e, outcome⟩ |
    ⟨added, storage, accepted, run, persists, outcome⟩ |
    ⟨added, meeting, common, left, right, mempool, storage, state', accepted, run, forks, persists,
      stateOk', -, sound', outcome⟩
  · rw [outcome]
    exact inv
  · rw [outcome]
    rw [run] at reachable
    -- The tip entry stays, so the state and the height of the pool stay.
    have tip := refines.tipEntry_store accepted
    refine ⟨reachable, ⟨state, ?_, ?_⟩, idle persists⟩
    · rw [Chain.state, tip]
      exact stateOk
    · rw [Chain.height, tip]
      exact sound
  · rw [outcome]
    rw [run] at reachable
    exact ⟨reachable, ⟨state', stateOk', sound'⟩, idle persists⟩

theorem mine (inv : node.Invariant) (minerAddress : Text) (timestamp : Option Int)
    (maxTransactions maxAttempts : Int) (faults : List Fault) :
    (node.mine minerAddress timestamp maxTransactions maxAttempts faults).2.Invariant := by
  rw [LocalNode.mine]
  split
  · exact inv
  · rename_i block _
    have after := inv.submitBlock block faults
    split
    · rename_i outcome
      rwa [outcome] at after
    · rename_i outcome
      rwa [outcome] at after

omit [Platform] in
/-- Closing a storage ends its open transaction. -/
theorem close_idle (storage : SQLiteChainStorage) (idle : storage.connection.working = none) :
    storage.close.connection.working = none := by
  rw [SQLiteChainStorage.close]
  split
  · exact idle
  · rfl

theorem close (inv : node.Invariant) : node.close.Invariant := by
  refine ⟨inv.chain_reachable, inv.pool_sound, ?_⟩
  intro storage member
  obtain ⟨before, stored, rfl⟩ := Option.map_eq_some_iff.mp member
  exact close_idle before (inv.storage_idle before stored)

end Invariant

/-- **What holds of every reachable node.** -/
theorem Reachable.invariant {node : LocalNode} (reachable : node.Reachable) : node.Invariant := by
  induction reachable with
  | inMemory created => exact .new (fun _ member => by cases member) created
  | persistent idle created =>
      exact .new (fun _ member => Option.some.inj member ▸ idle) created
  | submitTransaction tx _ ih => exact ih.submitTransaction tx
  | send wallet recipientAddress amountAtoms feeAtoms validForBlocks _ ih =>
      exact ih.send wallet recipientAddress amountAtoms feeAtoms validForBlocks
  | submitBlock block faults _ ih => exact ih.submitBlock block faults
  | mine minerAddress timestamp maxTransactions maxAttempts faults _ ih =>
      exact ih.mine minerAddress timestamp maxTransactions maxAttempts faults
  | close _ ih => exact ih.close

end LocalNode

/-! ## Walks that cannot fail -/

namespace Chain.Refines

variable {chain : Chain}

/-- Every height up to that of a stored block has an ancestor there. -/
theorem exists_ancestor (refines : chain.Refines) {hash : Bytes} {entry : ChainEntry}
    (stored : chain.entries.get? hash = some entry) {height : Int}
    (inside : 0 ≤ height ∧ height ≤ entry.record.height) :
    ∃ ancestor, chain.ancestorAtHeight hash height = .ok ancestor ∧
      ancestor.record.height = height := by
  obtain ⟨path, branch, ends⟩ := refines.exists_branch stored
  have length := ends.length_eq
  obtain ⟨index, rfl⟩ : ∃ index : Nat, height = index := ⟨height.toNat, by omega⟩
  have below : index < path.length := by omega
  have split : path = path.take index ++ path[index] :: path.drop (index + 1) := by simp
  have frontLength : (path.take index).length = index := by
    rw [List.length_take]
    omega
  have counts : CountsHeights path := refines.countsHeights ends.lineage
  have found : chain.ancestorAtHeight hash (path.take index).length = .ok path[index].2 :=
    ancestorAtHeight_eq (split ▸ ends.lineage) (split ▸ counts)
  rw [frontLength] at found
  refine ⟨path[index].2, found, ?_⟩
  rw [counts split, frontLength]

/-- The paths between two stored blocks can be computed. -/
theorem exists_reorganizationPaths (refines : chain.Refines) {oldHash newHash : Bytes}
    (oldStored : chain.contains oldHash = true) (newStored : chain.contains newHash = true) :
    ∃ paths, chain.reorganizationPaths oldHash newHash = .ok paths := by
  obtain ⟨oldEntry, oldFound⟩ := contains_eq_true.mp oldStored
  obtain ⟨newEntry, newFound⟩ := contains_eq_true.mp newStored
  obtain ⟨oldPath, oldBranch, oldEnds⟩ := refines.exists_branch oldFound
  obtain ⟨newPath, newBranch, newEnds⟩ := refines.exists_branch newFound
  obtain ⟨meeting, common, left, right, forks⟩ :=
    refines.exists_forks oldEnds.lineage newEnds.lineage
  exact ⟨_, refines.reorganizationPaths_eq forks⟩

end Chain.Refines

namespace LocalNode

/-- A submission that raises leaves the chain, the pool and the database as they were. -/
theorem Invariant.submitBlock_error {node : LocalNode} (inv : node.Invariant) {block : Block}
    {faults : List Fault} {e : Raised} (raised : (node.submitBlock block faults).1 = .error e) :
    (node.submitBlock block faults).2 = node := by
  rcases inv.submitBlock_cases block faults with ⟨e', outcome⟩ |
    ⟨added, storage, -, -, -, outcome⟩ |
    ⟨added, meeting, common, left, right, mempool, storage, state', -, -, -, -, -, -, -, outcome⟩
  · rw [outcome]
  · rw [outcome] at raised
    cases raised
  · rw [outcome] at raised
    cases raised

/-- A submission that raises, and the walks that could make it raise too late. -/
structure SubmissionAtomic (node : LocalNode) : Prop where
  /-- The chain, the pool and the database are as before. -/
  unchanged : ∀ block faults e, (node.submitBlock block faults).1 = .error e →
    (node.submitBlock block faults).2 = node
  /-- The paths between the tips exist when the new entry is already stored. -/
  paths_after_insertion : ∀ chain : Chain, chain.Reachable → ∀ block added,
    chain.newEntry block = .ok added →
      ∃ paths, (chain.store added).reorganizationPaths (chain.store added).activeTipHash
        added.record.blockHash = .ok paths
  paths_exist : ∀ chain : Chain, chain.Reachable → ∀ oldHash newHash,
    chain.contains oldHash = true → chain.contains newHash = true →
      ∃ paths, chain.reorganizationPaths oldHash newHash = .ok paths
  ancestors_exist : ∀ chain : Chain, chain.Reachable → ∀ hash entry height,
    chain.entries.get? hash = some entry → 0 ≤ height ∧ height ≤ entry.record.height →
      ∃ ancestor, chain.ancestorAtHeight hash height = .ok ancestor

/-- **A failed submission changes nothing**, whatever made it fail: a rule of the chain, or
a fault at any statement of the database. -/
theorem Reachable.submitBlock_atomic {node : LocalNode} (reachable : node.Reachable) :
    node.SubmissionAtomic := by
  refine ⟨fun block faults e raised => reachable.invariant.submitBlock_error raised, ?_, ?_, ?_⟩
  · intro chain chainReachable block added accepted
    have stored : (chain.store added).Refines := chainReachable.refines.store accepted rfl rfl
    apply stored.exists_reorganizationPaths
    · exact Chain.contains_eq_true.mpr ⟨_, (chain.store added).tipEntry_stored⟩
    · exact Chain.contains_eq_true.mpr ⟨added, Dict.get?_set_self _ _ _⟩
  · intro chain chainReachable oldHash newHash oldStored newStored
    exact chainReachable.refines.exists_reorganizationPaths oldStored newStored
  · intro chain chainReachable hash entry height stored inside
    obtain ⟨ancestor, found, -⟩ := chainReachable.refines.exists_ancestor stored inside
    exact ⟨ancestor, found⟩

/-- The node that mined the first block. -/
def firstNode : LocalNode :=
  (@submitBlock asciiPlatform ⟨genesisChain, Mempool.empty, none⟩ firstBlock []).2

omit [Platform] in
theorem firstNode_reachable : @Reachable asciiPlatform firstNode := by
  apply @Reachable.submitBlock asciiPlatform
  apply @Reachable.inMemory asciiPlatform
  simp only [LocalNode.new, @Chain.init_testnet asciiPlatform]
  rfl

omit [Platform] in
theorem submitBlock_atomic_first : @SubmissionAtomic asciiPlatform firstNode :=
  @Reachable.submitBlock_atomic asciiPlatform firstNode firstNode_reachable

open Payer

/-- A node with the block that pays the payer. -/
def minedNode : LocalNode :=
  (@submitBlock trustingPlatform ⟨genesisChain, Mempool.empty, none⟩ minedBlock []).2

omit [Platform] in
theorem minedNode_reachable : @Reachable trustingPlatform minedNode := by
  apply @Reachable.submitBlock trustingPlatform
  apply @Reachable.inMemory trustingPlatform
  unfold LocalNode.new
  dsimp only
  rw [@Chain.init_testnet trustingPlatform]
  rfl

/-- The same node with the first transfer confirmed, the second one pending, and a side branch
of the same work. -/
def waitingNode : LocalNode :=
  let confirmed := (@submitBlock trustingPlatform minedNode confirmingBlock []).2
  let pending := (@submitTransaction trustingPlatform confirmed secondTransfer).2
  (@submitBlock trustingPlatform pending sideBlock []).2

omit [Platform] in
theorem waitingNode_reachable : @Reachable trustingPlatform waitingNode :=
  @Reachable.submitBlock trustingPlatform _ _ _ (@Reachable.submitTransaction trustingPlatform _ _
    (@Reachable.submitBlock trustingPlatform _ _ _ minedNode_reachable))

omit [Platform] in
theorem waitingNode_holds : waitingNode.chain.tip = confirmingBlock ∧
    waitingNode.mempool.transactions.values = [secondTransfer] := by
  decide +kernel

/-! ## The pool -/

/-- The pool of a node against the state of its active chain. -/
structure PoolInvariant (node : LocalNode) (state : AccountState) : Prop where
  /-- `_by_sender_nonce` is the inverse index of `_transactions`. -/
  index : ∀ sender nonce txid, node.mempool.bySenderNonce.get? (sender, nonce) = some txid ↔
    ∃ tx, node.mempool.transactions.get? txid = some tx ∧ tx.senderAddress = sender ∧
      tx.nonce = nonce
  txid_ok : ∀ txid tx, node.mempool.transactions.get? txid = some tx → tx.txid = .ok txid
  /-- The pending nonces of a sender continue its account, and are at most 64. -/
  nonces : ∀ sender, (node.mempool.senderTransactions sender).map Transaction.nonce =
    consecutive (state.accountOf sender).nonce (node.mempool.senderTransactions sender).length
  pending_le : ∀ sender, (node.mempool.senderTransactions sender).length ≤ maxPendingPerSender
  covered : ∀ sender, Mempool.reservedAtoms (node.mempool.senderTransactions sender) ≤
    (state.accountOf sender).balanceAtoms
  alive : ∀ txid tx, node.mempool.transactions.get? txid = some tx →
    node.chain.height + 1 ≤ tx.validUntilHeight
  /-- Nothing pending is confirmed on the active chain. -/
  unconfirmed : ∀ txid tx, node.mempool.transactions.get? txid = some tx →
    txid ∉ state.confirmedTxids ∧
    ∀ blocks, node.chain.activeChain = .ok blocks → tx ∉ branchTransactions blocks
  size_le : node.mempool.size ≤ maxMempoolTransactions
  /-- What `add` accepts carries the nonce that `next_nonce` returned just before. -/
  nextNonce : ∀ tx txid pool, node.mempool.add tx state (node.chain.height + 1) =
    .ok (txid, pool) → node.mempool.nextNonce tx.senderAddress state = .ok tx.nonce

/-- **The pool invariant** holds after every sequence of calls. -/
theorem Reachable.pool_invariant {node : LocalNode} (reachable : node.Reachable) :
    ∃ state, node.chain.state = .ok state ∧ node.PoolInvariant state := by
  have inv := reachable.invariant
  obtain ⟨state, stateOk, sound⟩ := inv.pool_sound
  obtain ⟨path, branch, state', ends, stateOk', same, -⟩ := inv.chain_reachable.refines.exists_state
  rw [stateOk] at stateOk'
  cases stateOk'
  refine ⟨state, stateOk, fun _ _ _ => sound.index, fun _ _ => sound.txid_ok, sound.nonces,
    sound.pending_le, sound.covered, fun _ _ => sound.alive, ?_, sound.size_le, ?_⟩
  · intro txid tx found
    refine ⟨sound.unconfirmed found, ?_⟩
    intro blocks active member
    rw [Chain.Reachable.activeChain_eq ends] at active
    cases active
    have listed : txid ∈ branch.state.confirmedTxids :=
      ends.replays.mem_confirmed.mpr ⟨tx, member, sound.txid_ok found⟩
    rw [← same.confirmedTxids_eq] at listed
    exact sound.unconfirmed found listed
  · intro tx txid pool added
    exact sound.nextNonce_eq (Mempool.add_eq_ok.mp added).1

omit [Platform] in
/-- A node that confirmed a transfer and has the next one pending. -/
theorem pool_invariant_waiting : waitingNode.mempool.transactions.values = [secondTransfer] ∧
    ∃ state, waitingNode.chain.state = .ok state ∧
      @PoolInvariant trustingPlatform waitingNode state :=
  ⟨waitingNode_holds.2, @Reachable.pool_invariant trustingPlatform waitingNode waitingNode_reachable⟩

end LocalNode

end OurCoin
