import OurCoin.Ledger.Failures
import OurCoin.Tree.BranchInvariants
import OurCoin.Tree.Builder

/-!
# Extending a chain

What it takes to put a block on a stored one, and how it can fail.

* The state of a stored block can be restored, and its balances sum up to the issued supply
  (`Chain.Refines.exists_parent_state`).
* `Chain.Refines.exists_candidate`: a batch that executes on that state, with a timestamp after
  the parent's one, always makes a candidate.
* `Chain.Reachable.overflow_free`: no overflow check ever fails on a reachable chain, and
  whatever `add_block` refuses it refuses as a `ChainError` with another cause.
-/

set_option autoImplicit false

namespace OurCoin

open Raising

variable [Platform]

/-! ## The target of a child -/

omit [Platform] in
theorem adjustedTarget_range (target timespan : Int) :
    0 < adjustedTarget target timespan ∧ adjustedTarget target timespan ≤ maxTarget := by
  have positive : (0 : Int) < maxTarget := by decide
  rw [adjustedTarget]
  omega

omit [Platform] in
theorem workForTarget_range {target work : Int} (run : workForTarget target = .ok work) :
    0 < target ∧ target ≤ maxTarget := by
  simp only [workForTarget, bind_eq_ok, raiseIf_eq_ok, exists_const, not_not] at run
  exact run.1

namespace Replays

variable {network : NetworkConfig} {blocks : List Block} {branch : BranchState}

theorem target_range (run : Replays network blocks branch) :
    0 < branch.tip.header.difficultyTarget ∧ branch.tip.header.difficultyTarget ≤ maxTarget := by
  cases run with
  | genesis start =>
      obtain ⟨-, -, tip, -, -, -, work⟩ := replayGenesis_ok start
      rw [tip]
      exact workForTarget_range work
  | extend before next =>
      obtain ⟨-, ⟨work, workOk, -⟩, -, tip⟩ := BranchState.extend_eq_ok.mp next
      rw [tip]
      exact workForTarget_range workOk

/-- Every block below the last height has a target for its children. -/
theorem exists_expectedTarget (run : Replays network blocks branch)
    (left : branch.tip.header.height ≠ u64Max) :
    ∃ target, branch.expectedTarget = .ok target ∧ 0 < target ∧ target ≤ maxTarget := by
  simp only [BranchState.expectedTarget, bind_eq_ok, raiseIf_eq_ok, exists_const]
  have height := run.tip_height
  have nonneg := run.height_nonneg
  split
  · exact ⟨_, ⟨left, rfl⟩, run.target_range⟩
  · rename_i boundary
    rw [difficultyAdjustmentInterval] at boundary ⊢
    have inside : (branch.tip.header.height + 1 - 120).toNat < branch.blocks.length := by
      rw [run.blocks_eq]
      omega
    rw [List.getElem?_eq_getElem inside]
    exact ⟨_, ⟨left, rfl⟩, adjustedTarget_range _ _⟩

omit [Platform] in
theorem expectedTarget_fails (branch : BranchState) :
    RaisesOnly (FailsAs .chainError) branch.expectedTarget := by
  rw [BranchState.expectedTarget]
  refine .bind (.raiseIf (by decide)) fun _ _ => ?_
  dsimp only
  split
  · exact .pure _
  · split
    · exact .throw (by decide)
    · exact .pure _

end Replays

/-! ## Rewards and roots -/

omit [Platform] in
theorem exists_blockSubsidy {height supply : Int} (heightRange : 0 ≤ height ∧ height ≤ u64Max)
    (supplyRange : 0 ≤ supply ∧ supply ≤ maxSupplyAtoms) :
    ∃ subsidy, blockSubsidy height supply = .ok subsidy := by
  simp only [blockSubsidy, bind_eq_ok, raiseIf_eq_ok, exists_const, validateSupply_eq_ok, not_not]
  split
  · exact ⟨_, heightRange, supplyRange, rfl⟩
  · exact ⟨_, heightRange, supplyRange, rfl⟩

/-- A reward to an address of the testnet has an ID. -/
theorem RewardTransaction.exists_txid {height amount : Int} {miner : Text}
    (heightRange : 0 ≤ height ∧ height ≤ u64Max) (amountRange : 0 ≤ amount ∧ amount ≤ u64Max)
    (minerValid : ∃ hash, decodeAddress miner testnet = .ok hash) :
    ∃ id, (RewardTransaction.mk rewardTransactionVersion testnet.chainId height miner amount).txid =
      .ok id := by
  obtain ⟨hash, decoded⟩ := minerValid
  obtain ⟨domain, domainOk⟩ : ∃ written, encodeBytes rewardTransactionDomain = .ok written :=
    exists_encodeBytes (by decide)
  obtain ⟨chainId, chainIdOk⟩ := exists_encodeText_ascii testnet.chainId_valid.2 (by decide)
  obtain ⟨field, fieldOk⟩ := exists_encodeText_address decoded
  simp only [txid, toBytes, domainOk, chainIdOk, fieldOk, ok_bind, bind_eq_ok, pure_eq_ok, encodeU16,
    encodeU64, encodeUnsigned_eq_ok]
  exact ⟨_, _, ⟨_, ⟨by decide, rfl⟩, _, ⟨heightRange, rfl⟩, _, ⟨amountRange, rfl⟩, rfl⟩, rfl⟩

theorem exists_transactionsRoot {reward : RewardTransaction} {transactions : List Transaction}
    {id : Bytes} (rewardOk : reward.txid = .ok id)
    (valid : ∀ tx ∈ transactions, tx.IntrinsicallyValid testnet) :
    ∃ root, transactionsRoot reward transactions = .ok root := by
  obtain ⟨ids, idsOk⟩ := exists_mapM_eq_ok fun tx member => (valid tx member).exists_txid
  obtain ⟨root, rootOk⟩ : ∃ root, merkleRoot (id :: ids) = .ok root := by
    apply exists_merkleRoot
    intro leaf member
    rcases List.mem_cons.mp member with rfl | later
    · exact RewardTransaction.length_txid rewardOk
    · obtain ⟨tx, -, txOk⟩ := (mem_of_mapM_eq_ok idsOk).mp later
      exact Transaction.length_txid txOk
  exact ⟨root, by rw [transactionsRoot, rewardOk, ok_bind, idsOk, ok_bind, rootOk]⟩

namespace Chain

variable {chain : Chain} {hash : Bytes} {entry : ChainEntry}

/-! ## The state of a parent -/

/-- **The state of a stored block can be restored**, and its total is the issued supply. -/
theorem Refines.exists_parent_state (refines : chain.Refines)
    (stored : chain.entries.get? hash = some entry) :
    ∃ state, AccountState.fromSnapshot entry.stateSnapshot chain.network = .ok state ∧
      state.WellFormed ∧ state.network = testnet ∧
      state.totalBalance = entry.record.totalSupplyAtoms ∧
      0 ≤ entry.record.totalSupplyAtoms ∧ entry.record.totalSupplyAtoms ≤ maxSupplyAtoms := by
  obtain ⟨path, branch, ends⟩ := refines.exists_branch stored
  obtain ⟨state, restored, same⟩ := refines.restores ends
  obtain ⟨total, supplyRange⟩ := ends.replays.supply
  refine ⟨state, restored, same.symm.wellFormed ends.replays.wellFormed,
    same.network_eq.trans ends.replays.network_eq, ?_, ends.supply_eq ▸ supplyRange⟩
  rw [same.totalBalance_eq, total, ends.supply_eq]

theorem Refines.exists_expectedTarget (refines : chain.Refines)
    (stored : chain.entries.get? hash = some entry) (left : entry.record.height ≠ u64Max) :
    ∃ target, chain.expectedTargetForChild hash = .ok target ∧ 0 < target ∧ target ≤ maxTarget := by
  obtain ⟨path, branch, ends⟩ := refines.exists_branch stored
  rw [refines.expectedTargetForChild_eq ends]
  exact ends.replays.exists_expectedTarget (ends.height_eq ▸ left)

theorem Refines.expectedTarget_fails (refines : chain.Refines)
    (stored : chain.entries.get? hash = some entry) :
    RaisesOnly (FailsAs .chainError) (chain.expectedTargetForChild hash) := by
  obtain ⟨path, branch, ends⟩ := refines.exists_branch stored
  rw [refines.expectedTargetForChild_eq ends]
  exact Replays.expectedTarget_fails branch

theorem Refines.blockHash_ok (refines : chain.Refines)
    (stored : chain.entries.get? hash = some entry) : entry.block.blockHash = .ok hash := by
  obtain ⟨path, branch, ends⟩ := refines.exists_branch stored
  exact ends.hash_ok

/-- The height of a record is the height of its header. -/
theorem Refines.header_height (refines : chain.Refines)
    (stored : chain.entries.get? hash = some entry) :
    entry.block.header.height = entry.record.height ∧ 0 ≤ entry.record.height := by
  obtain ⟨path, branch, ends⟩ := refines.exists_branch stored
  rw [ends.block_eq, ends.height_eq]
  exact ⟨rfl, ends.replays.height_nonneg⟩

/-! ## Candidates -/

/-- **A batch that executes on a stored block makes a candidate.** -/
theorem Refines.exists_candidate (refines : chain.Refines)
    (stored : chain.entries.get? hash = some entry) (left : entry.record.height < u64Max)
    {miner : Text} (minerValid : ∃ key, decodeAddress miner chain.network = .ok key)
    {timestamp : Int} (later : entry.block.header.timestamp < timestamp)
    (timestampRange : 0 ≤ timestamp ∧ timestamp ≤ u64Max) {transactions : List Transaction}
    (few : (transactions.length : Int) ≤ maxBlockTransactions) {state paid : AccountState}
    (restored : AccountState.fromSnapshot entry.stateSnapshot chain.network = .ok state)
    (batch : AccountState.Batch (entry.record.height + 1) state transactions paid) :
    ∃ target candidate, chain.expectedTargetForChild hash = .ok target ∧
      chain.buildCandidate miner transactions timestamp (some hash) = .ok candidate ∧
      Candidate entry.block state entry.record.totalSupplyAtoms miner transactions timestamp target
        candidate := by
  obtain ⟨state', restored', wellFormed, network, total, supplyRange⟩ :=
    refines.exists_parent_state stored
  rw [restored] at restored'
  cases restored'
  obtain ⟨heightEq, heightNonneg⟩ := refines.header_height stored
  obtain ⟨target, targetOk, targetRange⟩ := refines.exists_expectedTarget stored (by omega)
  rw [refines.network_eq] at minerValid
  have nextRange : 0 ≤ entry.record.height + 1 ∧ entry.record.height + 1 ≤ u64Max := by omega
  have maxFits : maxSupplyAtoms ≤ u64Max := by decide
  -- The batch, the subsidy and the reward.
  have ran := batch.applyTransactions_eq wellFormed nextRange (by omega)
  obtain ⟨subsidy, subsidyOk⟩ := exists_blockSubsidy nextRange supplyRange
  obtain ⟨rewardFits, creditFits⟩ := reward_fits total ran subsidyOk
  have subsidyNonneg := (blockSubsidy_ok subsidyOk).1
  have feesNonneg := batch.totalFees_nonneg
  have paidNetwork : paid.network = testnet := batch.network_eq.trans network
  obtain ⟨after, credited⟩ := AccountState.exists_creditReward (paidNetwork ▸ minerValid)
    (by omega) creditFits
  have rewarded := AccountState.rewarded_of_creditReward credited
  -- The two roots.
  obtain ⟨id, idOk⟩ := RewardTransaction.exists_txid nextRange ⟨by omega, rewardFits⟩ minerValid
  obtain ⟨root, rootOk⟩ := exists_transactionsRoot idOk fun tx member =>
    network ▸ (batch.alive tx member).1
  obtain ⟨stateRoot, stateRootOk⟩ := (rewarded.wellFormed (batch.wellFormed wellFormed)).exists_stateRoot
    (rewarded.network_eq.trans paidNetwork)
  have made : Candidate entry.block state entry.record.totalSupplyAtoms miner transactions timestamp
      target ⟨⟨blockVersion, state.network.chainId, entry.block.header.height + 1, hash, root,
        stateRoot, timestamp, target, 0, miner⟩, ⟨rewardTransactionVersion, testnet.chainId,
        entry.record.height + 1, miner, subsidy + AccountState.totalFees transactions⟩,
        transactions⟩ := by
    refine ⟨supplyRange, by omega, timestampRange, later, few, targetRange, network ▸ minerValid, _,
      after, hash, root, stateRoot, ?_, refines.blockHash_ok stored, rootOk, stateRootOk, rfl⟩
    rw [buildReward_eq_ok, heightEq]
    exact ⟨_, subsidy, paid, wellFormed, ran, subsidyOk, rewardFits, by rw [paidNetwork], credited⟩
  refine ⟨target, _, targetOk, ?_, made⟩
  simp only [buildCandidate, Option.getD_some, bind_eq_ok, rethrow_eq_ok, entryOf_eq_ok,
    buildBlockCandidate_eq_ok]
  exact ⟨entry, stored, state, restored, target, targetOk, made⟩

/-! ## Failures -/

/-- **A block is refused as a `ChainError`, and never by an overflow.** -/
theorem Refines.newEntry_fails (refines : chain.Refines) (block : Block) :
    RaisesOnly (FailsAs .chainError) (chain.newEntry block) := by
  rw [newEntry]
  refine .bind (FailsAs.reraised (by decide) ?_) fun blockHash _ => ?_
  · exact block.header.blockHash_raises.mono fun _ fails => fails.1
  refine .bind (.raiseIf (by decide)) fun _ _ => ?_
  refine .bind ?_ fun parent found => ?_
  · intro e raised
    rw [entryOf] at raised
    split at raised
    · cases raised
    · cases raised
      decide
  have stored := entryOf_eq_ok.mp found
  obtain ⟨state, restored, wellFormed, network, total, -⟩ := refines.exists_parent_state stored
  refine .bind (.of_ok restored) fun state' restored' => ?_
  rw [restored] at restored'
  cases restored'
  refine .bind (refines.expectedTarget_fails stored) fun target _ => ?_
  refine .bind (FailsAs.kept (by decide) ?_) fun execution valid => ?_
  · exact (validateAndExecuteBlock_fails (refines.blockHash_ok stored) wellFormed network total _
      _).mono fun _ fails => .inl fails
  have header := (validateAndExecuteBlock_eq_ok.mp (rethrow_eq_ok.mp valid)).header
  have work : workForTarget block.header.difficultyTarget =
      .ok (2 ^ 256 / (block.header.difficultyTarget + 1)) := by
    simp only [workForTarget, bind_eq_ok, raiseIf_eq_ok, exists_const, pure_eq_ok, not_not, and_true]
    exact header.target_eq ▸ header.target_range
  exact .bind (.of_ok work) fun _ _ => .pure _

theorem Refines.addBlock_fails (refines : chain.Refines) (block : Block) :
    RaisesOnly (FailsAs .chainError) (chain.addBlock block).1 := by
  intro e raised
  rcases refines.addBlock_cases block with ⟨e', refused, outcome⟩ | ⟨added, -, -, outcome⟩ |
    ⟨added, meeting, common, left, right, -, -, -, outcome⟩
  · rw [outcome] at raised
    cases raised
    exact refines.newEntry_fails block e refused
  · rw [outcome] at raised
    cases raised
  · rw [outcome] at raised
    cases raised

theorem Refines.buildCandidate_fails (refines : chain.Refines) (miner : Text)
    (transactions : List Transaction) (timestamp : Int) (parentHash : Option Bytes) :
    RaisesOnly (fun e => ¬ e.IsOverflow)
      (chain.buildCandidate miner transactions timestamp parentHash) := by
  rw [buildCandidate]
  refine .bind ?_ fun parent found => ?_
  · intro e raised
    rw [entryOf] at raised
    split at raised
    · cases raised
    · cases raised
      decide
  have stored := entryOf_eq_ok.mp found
  obtain ⟨state, restored, wellFormed, -, total, -⟩ := refines.exists_parent_state stored
  refine .bind (.of_ok restored) fun state' restored' => ?_
  rw [restored] at restored'
  cases restored'
  apply not_isOverflow_kept (by decide)
  refine .bind ((refines.expectedTarget_fails stored).mono fun _ fails => fails.2) fun target _ => ?_
  exact buildBlockCandidate_fails wellFormed total

/-- What may go wrong on the blocks of a chain: no check against overflow ever fails. -/
structure OverflowFree (chain : Chain) : Prop where
  /-- Executing any batch, or any block, on the state of a stored block. -/
  executing : ∀ hash entry, chain.entries.get? hash = some entry →
    ∃ state, chain.getState hash = .ok state ∧
      (∀ transactions height,
        RaisesOnly (fun e => ¬ e.IsOverflow) (state.applyTransactions transactions height)) ∧
      ∀ block target, RaisesOnly (fun e => ¬ e.IsOverflow)
        (validateAndExecuteBlock block (some entry.block) state entry.record.totalSupplyAtoms
          chain.network target)
  /-- Building a child of any block. -/
  building : ∀ miner transactions timestamp parentHash, RaisesOnly (fun e => ¬ e.IsOverflow)
    (chain.buildCandidate miner transactions timestamp parentHash)
  /-- Whatever `add_block` refuses it refuses as a `ChainError` with another cause. -/
  refusing : ∀ block, RaisesOnly (fun e => e.cls = .chainError ∧ ¬ e.IsOverflow)
    (chain.addBlock block).1

/-- **Arithmetic overflow is unreachable.** -/
theorem Reachable.overflow_free (reachable : chain.Reachable) : chain.OverflowFree := by
  have refines := reachable.refines
  refine ⟨?_, refines.buildCandidate_fails, refines.addBlock_fails⟩
  intro hash entry stored
  obtain ⟨state, restored, wellFormed, network, total, supplyRange⟩ :=
    refines.exists_parent_state stored
  have maxFits : maxSupplyAtoms ≤ u64Max := by decide
  refine ⟨state, (Reachable.getState_eq_ok stored).mpr restored, ?_, ?_⟩
  · intro transactions height
    exact (AccountState.applyTransactions_fails wellFormed (by omega) _ _).mono
      fun _ fails => fails.2
  · intro block target
    exact (validateAndExecuteBlock_fails (refines.blockHash_ok stored) wellFormed network total _
      target).mono fun _ fails => fails.2

omit [Platform] in
theorem overflow_free_branched : Payer.branchedChain.tipEntry.block = Payer.transfersBlock ∧
    @OverflowFree trustingPlatform Payer.branchedChain :=
  ⟨Payer.branchedChain_tip.2.1,
    @Reachable.overflow_free trustingPlatform Payer.branchedChain Payer.branchedChain_reachable⟩

end Chain

end OurCoin
