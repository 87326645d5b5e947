import OurCoin.Tree.Genesis

/-!
# The builder and the validator agree

`build_block_candidate` and `validate_and_execute_block` are two separately written
paths through the same rules. They meet at `validBlock_iff_candidate`: on one parent,
state and target, a block whose header has canonical bytes is valid exactly when it is a
candidate of the builder with another nonce and enough Proof of Work. On a reachable
chain this is what decides whether `add_block` accepts a block
(`Chain.Reachable.builder_agrees`).
-/

set_option autoImplicit false

namespace OurCoin

open Raising

variable [Platform]

/-! ## What the builder requires -/

theorem buildReward_eq_ok {state after : AccountState} {supply height : Int} {miner : Text}
    {transactions : List Transaction} {reward : RewardTransaction} :
    buildReward state supply height miner transactions = .ok (reward, after) ↔
      ∃ fees subsidy paid, state.WellFormed ∧
        state.applyTransactions transactions height = .ok (fees, paid) ∧
        blockSubsidy height supply = .ok subsidy ∧ subsidy + fees ≤ u64Max ∧
        reward = ⟨rewardTransactionVersion, paid.network.chainId, height, miner, subsidy + fees⟩ ∧
        paid.creditReward miner (subsidy + fees) = .ok after := by
  simp only [buildReward, bind_eq_ok, raiseIf_eq_ok, exists_const, pure_eq_ok,
    AccountState.copy_eq_ok, Prod.exists, not_lt, gt_iff_lt, Prod.mk.injEq]
  constructor
  · rintro ⟨working, ⟨wf, rfl⟩, fees, paid, batch, subsidy, subsidyOk, fits, credited, creditOk, rfl,
      rfl⟩
    have network := (AccountState.applyTransactions_ok batch).2.2.1.network_eq
    exact ⟨fees, subsidy, paid, wf, batch, subsidyOk, fits, by rw [network], creditOk⟩
  · rintro ⟨fees, subsidy, paid, wf, batch, subsidyOk, fits, rfl, creditOk⟩
    have network := (AccountState.applyTransactions_ok batch).2.2.1.network_eq
    exact ⟨state, ⟨wf, rfl⟩, fees, paid, batch, subsidy, subsidyOk, fits, after, creditOk,
      by rw [network], rfl⟩

/-- What the builder requires of its arguments and returns. -/
structure Candidate (parent : Block) (state : AccountState) (supply : Int) (miner : Text)
    (transactions : List Transaction) (timestamp target : Int) (candidate : Block) : Prop where
  supply_range : 0 ≤ supply ∧ supply ≤ maxSupplyAtoms
  height_left : parent.header.height ≠ u64Max
  timestamp_range : 0 ≤ timestamp ∧ timestamp ≤ u64Max
  timestamp_lt : parent.header.timestamp < timestamp
  transactions_le : (transactions.length : Int) ≤ maxBlockTransactions
  target_range : 0 < target ∧ target ≤ maxTarget
  miner_valid : ∃ hash, decodeAddress miner state.network = .ok hash
  built : ∃ reward after previous transactionsRoot' stateRoot,
    buildReward state supply (parent.header.height + 1) miner transactions = .ok (reward, after) ∧
    parent.blockHash = .ok previous ∧ transactionsRoot reward transactions = .ok transactionsRoot' ∧
    after.stateRoot = .ok stateRoot ∧
    candidate = ⟨⟨blockVersion, state.network.chainId, parent.header.height + 1, previous,
      transactionsRoot', stateRoot, timestamp, target, 0, miner⟩, reward, transactions⟩

theorem buildBlockCandidate_eq_ok {parent : Block} {state : AccountState} {supply : Int}
    {miner : Text} {transactions : List Transaction} {timestamp target : Int} {candidate : Block} :
    buildBlockCandidate parent state supply miner transactions timestamp (some target) =
        .ok candidate ↔
      Candidate parent state supply miner transactions timestamp target candidate := by
  simp only [buildBlockCandidate, bind_eq_ok, raiseIf_eq_ok, rethrow_eq_ok, exists_const,
    pure_eq_ok, validateSupply_eq_ok, Prod.exists, not_not, not_le, not_lt, gt_iff_lt,
    Option.getD_some]
  constructor
  · rintro ⟨supplyRange, left, range, later, short, targetRange, minerHash, minerOk, reward, after,
      rewardOk, previous, previousOk, root, rootOk, stateRoot, stateRootOk, rfl⟩
    exact ⟨supplyRange, left, range, later, short, targetRange, ⟨minerHash, minerOk⟩, reward, after,
      previous, root, stateRoot, rewardOk, previousOk, rootOk, stateRootOk, rfl⟩
  · rintro ⟨supplyRange, left, range, later, short, targetRange, ⟨minerHash, minerOk⟩, reward, after,
      previous, root, stateRoot, rewardOk, previousOk, rootOk, stateRootOk, rfl⟩
    exact ⟨supplyRange, left, range, later, short, targetRange, minerHash, minerOk, reward, after,
      rewardOk, previous, previousOk, root, rootOk, stateRoot, stateRootOk, rfl⟩

/-! ## Agreement -/

/-- **A block is valid exactly when the builder makes it, up to the nonce, and its hash
meets its target.** -/
theorem validBlock_iff_candidate {block parent : Block} {state : AccountState} {supply target : Int}
    {hash : Bytes} (heightLeft : parent.header.height ≠ u64Max)
    (hashOk : block.blockHash = .ok hash) :
    (∃ execution, ValidBlock block parent state supply state.network target execution) ↔
      ∃ candidate, Candidate parent state supply block.header.minerAddress block.transactions
          block.header.timestamp target candidate ∧
        candidate.withNonce block.header.nonce = block ∧
        hashMeetsTarget hash block.header.difficultyTarget = true := by
  constructor
  · rintro ⟨execution, valid⟩
    have encodable := BlockHeader.exists_blockHash.mp ⟨hash, hashOk⟩
    obtain ⟨paid, batch, credit⟩ := valid.executes.run
    have network := (AccountState.applyTransactions_ok batch).2.2.1.network_eq
    obtain ⟨hash', hashOk', met⟩ := valid.header.work_met
    rw [hashOk] at hashOk'
    cases hashOk'
    have reward_eq : block.rewardTransaction = ⟨rewardTransactionVersion, paid.network.chainId,
        parent.header.height + 1, block.header.minerAddress,
        execution.subsidyAtoms + execution.feesAtoms⟩ := by
      rw [network, ← valid.reward.version_eq, ← valid.reward.chainId_eq, ← valid.header.height_eq,
        ← valid.reward.height_eq, ← valid.reward.miner_eq, ← valid.executes.amount_eq]
    refine ⟨_, ⟨valid.supply_range, heightLeft, encodable.timestamp_range, valid.header.timestamp_lt,
      valid.header.transactions_le, valid.header.target_range, valid.header.miner_valid,
      block.rewardTransaction, execution.state, _, _, _, ?_, valid.header.previous_eq,
      valid.header.root_eq, valid.stateRoot_eq, rfl⟩, ?_, met⟩
    · rw [buildReward_eq_ok, ← valid.header.height_eq]
      refine ⟨execution.feesAtoms, execution.subsidyAtoms, paid, valid.executes.wellFormed, batch,
        valid.executes.subsidy_ok, valid.executes.fits, ?_, ?_⟩
      · rw [reward_eq, valid.header.height_eq]
      · rw [← valid.executes.amount_eq, ← valid.reward.miner_eq]
        exact credit
    · rw [Block.withNonce, ← valid.header.version_eq, ← valid.header.chainId_eq,
        ← valid.header.height_eq, ← valid.header.target_eq]
  · rintro ⟨candidate, made, same, met⟩
    obtain ⟨reward, after, previous, root, stateRoot, rewardOk, previousOk, rootOk, stateRootOk,
      candidateEq⟩ := made.built
    obtain ⟨fees, subsidy, paid, wf, batch, subsidyOk, fits, rewardEq, credit⟩ :=
      buildReward_eq_ok.mp rewardOk
    have network := (AccountState.applyTransactions_ok batch).2.2.1.network_eq
    have headerEq : block.header = ⟨blockVersion, state.network.chainId, parent.header.height + 1,
        previous, root, stateRoot, block.header.timestamp, target, block.header.nonce,
        block.header.minerAddress⟩ := by
      have headers := congrArg Block.header same
      rw [candidateEq, Block.withNonce] at headers
      exact headers.symm
    have blockReward : block.rewardTransaction = reward := by
      have rewards := congrArg Block.rewardTransaction same
      rw [candidateEq, Block.withNonce] at rewards
      exact rewards.symm
    have heightEq : block.header.height = parent.header.height + 1 := congrArg BlockHeader.height headerEq
    have targetEq : block.header.difficultyTarget = target :=
      congrArg BlockHeader.difficultyTarget headerEq
    refine ⟨⟨after, supply + subsidy, subsidy, fees⟩, made.supply_range, ?_, ?_, ?_, ?_, rfl⟩
    · exact {
        version_eq := congrArg BlockHeader.version headerEq
        chainId_eq := congrArg BlockHeader.chainId headerEq
        network_eq := rfl
        height_eq := heightEq
        previous_eq := by rw [previousOk, congrArg BlockHeader.previousBlockHash headerEq]
        timestamp_lt := made.timestamp_lt
        target_eq := targetEq
        target_range := made.target_range
        transactions_le := made.transactions_le
        miner_valid := made.miner_valid
        root_eq := by
          rw [blockReward, rootOk, congrArg BlockHeader.transactionsRoot headerEq]
        work_met := ⟨hash, hashOk, met⟩ }
    · rw [rewardEq] at blockReward
      exact ⟨by rw [blockReward], by rw [blockReward, network], by rw [blockReward, heightEq],
        by rw [blockReward]⟩
    · refine ⟨wf, heightEq ▸ subsidyOk, fits, ?_, paid, heightEq ▸ batch, ?_⟩
      · rw [blockReward, rewardEq]
      · rw [blockReward, rewardEq]
        exact credit
    · rw [stateRootOk, congrArg BlockHeader.stateRoot headerEq]

namespace Chain

variable {chain : Chain}

/-- A call of `add_block` succeeds exactly when every check before the insertion does. -/
theorem Refines.addBlock_succeeds_iff (refines : chain.Refines) {block : Block} :
    (∃ update, (chain.addBlock block).1 = .ok update) ↔
      ∃ added, chain.newEntry block = .ok added := by
  rcases refines.addBlock_cases block with ⟨e, refused, outcome⟩ | ⟨added, accepted, -, outcome⟩ |
    ⟨added, meeting, common, left, right, accepted, -, -, outcome⟩
  · rw [outcome, refused]
    simp
  · rw [outcome, accepted]
    simp
  · rw [outcome, accepted]
    simp

/-- **Builder and validator agree.** On every reachable chain, a block with a known parent
that is not stored yet is accepted exactly when it is the candidate that the builder makes
from its miner, its transactions and its timestamp on that parent, up to the nonce, the
nonce is an unsigned 64-bit integer, and its hash meets its target. -/
theorem Reachable.builder_agrees (reachable : chain.Reachable) {block : Block}
    (known : chain.contains block.header.previousBlockHash = true)
    (notStored : ∀ hash, block.blockHash = .ok hash → chain.contains hash = false) :
    (∃ update, (chain.addBlock block).1 = .ok update) ↔
      ∃ candidate, chain.buildCandidate block.header.minerAddress block.transactions
          block.header.timestamp (some block.header.previousBlockHash) = .ok candidate ∧
        candidate.withNonce block.header.nonce = block ∧
        (0 ≤ block.header.nonce ∧ block.header.nonce ≤ u64Max) ∧
        ∃ hash, block.blockHash = .ok hash ∧
          hashMeetsTarget hash block.header.difficultyTarget = true := by
  have refines := reachable.refines
  obtain ⟨parent, parentStored⟩ := contains_eq_true.mp known
  obtain ⟨path, branch, ends⟩ := refines.exists_branch parentStored
  obtain ⟨state, restored, same⟩ := refines.restores ends
  have network : state.network = chain.network := by
    rw [same.network_eq, ends.replays.network_eq, refines.network_eq]
  -- Both sides read the same parent, restore the same state and require the same target.
  have left : (∃ added, chain.newEntry block = .ok added) ↔
      ∃ hash target execution, block.blockHash = .ok hash ∧
        chain.expectedTargetForChild block.header.previousBlockHash = .ok target ∧
        ValidBlock block parent.block state parent.record.totalSupplyAtoms chain.network target
          execution := by
    simp only [newEntry, bind_eq_ok, rethrow_eq_ok, raiseIf_eq_ok, exists_const, pure_eq_ok,
      entryOf_eq_ok, validateAndExecuteBlock_eq_ok, parentStored, restored, Option.some.injEq,
      Except.ok.injEq, exists_eq_left', Bool.not_eq_true]
    constructor
    · rintro ⟨added, hash, hashOk, -, target, targetOk, execution, valid, -⟩
      exact ⟨hash, target, execution, hashOk, targetOk, valid⟩
    · rintro ⟨hash, target, execution, hashOk, targetOk, valid⟩
      have range := valid.header.target_eq ▸ valid.header.target_range
      have workOk : workForTarget block.header.difficultyTarget =
          .ok (2 ^ 256 / (block.header.difficultyTarget + 1)) := by
        simp only [workForTarget, bind_eq_ok, raiseIf_eq_ok, exists_const, pure_eq_ok, not_not,
          and_true]
        exact range
      exact ⟨_, hash, hashOk, notStored hash hashOk, target, targetOk, execution, valid, _, workOk,
        rfl⟩
  have right : ∀ candidate, chain.buildCandidate block.header.minerAddress block.transactions
      block.header.timestamp (some block.header.previousBlockHash) = .ok candidate ↔
      ∃ target, chain.expectedTargetForChild block.header.previousBlockHash = .ok target ∧
        Candidate parent.block state parent.record.totalSupplyAtoms block.header.minerAddress
          block.transactions block.header.timestamp target candidate := by
    intro candidate
    simp only [buildCandidate, bind_eq_ok, rethrow_eq_ok, entryOf_eq_ok, Option.getD_some,
      parentStored, restored, Option.some.injEq, Except.ok.injEq, exists_eq_left',
      buildBlockCandidate_eq_ok]
  rw [refines.addBlock_succeeds_iff, left]
  simp only [right]
  have heightLeft : ∀ {target : Int},
      chain.expectedTargetForChild block.header.previousBlockHash = .ok target →
        parent.block.header.height ≠ u64Max := by
    intro target targetOk
    simp only [expectedTargetForChild, bind_eq_ok, raiseIf_eq_ok, exists_const, entryOf_eq_ok,
      parentStored, Option.some.injEq, exists_eq_left'] at targetOk
    rw [ends.block_eq, ← ends.height_eq]
    exact targetOk.1
  constructor
  · rintro ⟨hash, target, execution, hashOk, targetOk, valid⟩
    rw [← network] at valid
    obtain ⟨candidate, made, sameBlock, met⟩ :=
      (validBlock_iff_candidate (heightLeft targetOk) hashOk).mp ⟨execution, valid⟩
    have encodable := BlockHeader.exists_blockHash.mp ⟨hash, hashOk⟩
    exact ⟨candidate, ⟨target, targetOk, made⟩, sameBlock, encodable.nonce_range, hash, hashOk, met⟩
  · rintro ⟨candidate, ⟨target, targetOk, made⟩, sameBlock, -, hash, hashOk, met⟩
    obtain ⟨execution, valid⟩ := (validBlock_iff_candidate (heightLeft targetOk) hashOk).mpr
      ⟨candidate, made, sameBlock, met⟩
    exact ⟨hash, target, execution, hashOk, targetOk, network ▸ valid⟩

omit [Platform] in
theorem Reachable.builder_agrees_first :
    (∃ update, (@Chain.addBlock asciiPlatform genesisChain firstBlock).1 = .ok update) ↔
      ∃ candidate, @Chain.buildCandidate asciiPlatform genesisChain firstBlock.header.minerAddress
          firstBlock.transactions firstBlock.header.timestamp
          (some firstBlock.header.previousBlockHash) = .ok candidate ∧
        candidate.withNonce firstBlock.header.nonce = firstBlock ∧
        (0 ≤ firstBlock.header.nonce ∧ firstBlock.header.nonce ≤ u64Max) ∧
        ∃ hash, @Block.blockHash asciiPlatform firstBlock = .ok hash ∧
          hashMeetsTarget hash firstBlock.header.difficultyTarget = true :=
  @Reachable.builder_agrees asciiPlatform genesisChain
    (@Reachable.init asciiPlatform genesisChain (@init_testnet asciiPlatform)) firstBlock
    (by decide +kernel) (fun hash found => by
      rw [firstBlock_hash] at found
      rw [← Except.ok.inj found]
      decide +kernel)

end Chain

end OurCoin
