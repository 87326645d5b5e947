import OurCoin.Ledger.Execution
import OurCoin.Model.Consensus

/-!
# The validation of blocks

What `validate_and_execute_block` requires of a block with a parent, and what the new
state is.

* `ValidHeader`, `ValidReward` and `Executes` list the conditions in the order of the
  source, and `ValidBlock` puts them together. `validateAndExecuteBlock_eq_ok` says
  that validation succeeds exactly when they hold.
* The scheduled subsidy never takes the supply above its maximum (`blockSubsidy_ok`).
* A valid block adds its subsidy to the total of all balances (`ValidBlock.total`).
* Validation on two states that agree gives states that agree (`ValidBlock.agrees`).
-/

set_option autoImplicit false

namespace OurCoin

open Raising

/-! ## The subsidy -/

theorem rewardLoop_nonneg : ∀ (remaining : Nat) {reward : Int}, 0 ≤ reward →
    0 ≤ rewardLoop remaining reward
  | 0, _, nonneg => nonneg
  | remaining + 1, reward, nonneg => by
      rw [rewardLoop]
      split
      · refine rewardLoop_nonneg remaining ?_
        rw [rewardNumerator, rewardDenominator]
        omega
      · exact nonneg

theorem validateSupply_eq_ok {supply : Int} {u : Unit} :
    validateSupply supply = .ok u ↔ 0 ≤ supply ∧ supply ≤ maxSupplyAtoms := by
  simp [validateSupply]

/-- **A subsidy is never negative and never exceeds what is left to be issued.** -/
theorem blockSubsidy_ok {height supply subsidy : Int}
    (run : blockSubsidy height supply = .ok subsidy) :
    0 ≤ subsidy ∧ supply + subsidy ≤ maxSupplyAtoms := by
  simp only [blockSubsidy, bind_eq_ok, raiseIf_eq_ok, exists_const, validateSupply_eq_ok] at run
  obtain ⟨-, supplyRange, rest⟩ := run
  split at rest
  · rw [pure_eq_ok] at rest
    omega
  · rw [pure_eq_ok] at rest
    have nonneg : 0 ≤ rewardLoop (height / rewardInterval).toNat initialRewardAtoms :=
      rewardLoop_nonneg _ (by decide)
    omega

theorem blockSubsidy_height {height supply subsidy : Int}
    (run : blockSubsidy height supply = .ok subsidy) : 0 ≤ height ∧ height ≤ u64Max := by
  simp only [blockSubsidy, bind_eq_ok, raiseIf_eq_ok, exists_const, not_not] at run
  exact run.1

/-! ## A block with a parent -/

section Validation

variable [Platform]

/-- The header rules, against the target required by the branch. -/
structure ValidHeader (block parent : Block) (state : AccountState) (network : NetworkConfig)
    (target : Int) : Prop where
  version_eq : block.header.version = blockVersion
  chainId_eq : block.header.chainId = network.chainId
  network_eq : state.network = network
  height_eq : block.header.height = parent.header.height + 1
  previous_eq : parent.blockHash = .ok block.header.previousBlockHash
  timestamp_lt : parent.header.timestamp < block.header.timestamp
  target_eq : block.header.difficultyTarget = target
  target_range : 0 < target ∧ target ≤ maxTarget
  transactions_le : (block.transactions.length : Int) ≤ maxBlockTransactions
  miner_valid : ∃ hash, decodeAddress block.header.minerAddress network = .ok hash
  root_eq : transactionsRoot block.rewardTransaction block.transactions =
    .ok block.header.transactionsRoot
  work_met : ∃ hash, block.blockHash = .ok hash ∧
    hashMeetsTarget hash block.header.difficultyTarget = true

theorem validateHeader_eq_ok {block parent : Block} {state : AccountState}
    {network : NetworkConfig} {target : Int} {u : Unit} :
    validateHeader block parent state network (some target) = .ok u ↔
      ValidHeader block parent state network target := by
  simp only [validateHeader, bind_eq_ok, raiseIf_eq_ok, rethrow_eq_ok, exists_const, not_not,
    not_or, not_le, not_lt, gt_iff_lt, Option.getD_some]
  constructor
  · rintro ⟨version, ⟨chain, network⟩, height, previous, previousOk, previousEq, timestamp, range,
      targetEq, -, short, miner, minerOk, root, rootOk, rootEq, hash, hashOk, met⟩
    exact ⟨version, chain, network, height, previousEq ▸ previousOk, timestamp, targetEq, range,
      short, ⟨miner, minerOk⟩, rootEq ▸ rootOk, ⟨hash, hashOk, met⟩⟩
  · intro valid
    obtain ⟨miner, minerOk⟩ := valid.miner_valid
    obtain ⟨hash, hashOk, met⟩ := valid.work_met
    exact ⟨valid.version_eq, ⟨valid.chainId_eq, valid.network_eq⟩, valid.height_eq, _,
      valid.previous_eq, rfl, valid.timestamp_lt, valid.target_range, valid.target_eq,
      valid.target_eq ▸ valid.target_range, valid.transactions_le, miner, minerOk, _,
      valid.root_eq, rfl, hash, hashOk, met⟩

/-- The rules of the reward transaction that need no execution. -/
structure ValidReward (block : Block) (network : NetworkConfig) : Prop where
  version_eq : block.rewardTransaction.version = rewardTransactionVersion
  chainId_eq : block.rewardTransaction.chainId = network.chainId
  height_eq : block.rewardTransaction.height = block.header.height
  miner_eq : block.rewardTransaction.minerAddress = block.header.minerAddress

omit [Platform] in
theorem validateReward_eq_ok {block : Block} {network : NetworkConfig} {u : Unit} :
    validateReward block network = .ok u ↔ ValidReward block network := by
  simp only [validateReward, bind_eq_ok, raiseIf_eq_ok, exists_const, not_not]
  constructor
  · rintro ⟨version, chain, height, miner⟩
    exact ⟨version, chain, height, miner⟩
  · intro valid
    exact ⟨valid.version_eq, valid.chainId_eq, valid.height_eq, valid.miner_eq⟩

/-- The execution of a block body. -/
structure Executes (block : Block) (state : AccountState) (supply fees subsidy : Int)
    (after : AccountState) : Prop where
  wellFormed : state.WellFormed
  subsidy_ok : blockSubsidy block.header.height supply = .ok subsidy
  fits : subsidy + fees ≤ u64Max
  amount_eq : block.rewardTransaction.amountAtoms = subsidy + fees
  run : ∃ paid, state.applyTransactions block.transactions block.header.height = .ok (fees, paid) ∧
    paid.creditReward block.rewardTransaction.minerAddress block.rewardTransaction.amountAtoms =
      .ok after

theorem executeBody_eq_ok {block : Block} {state after : AccountState}
    {supply fees subsidy : Int} :
    executeBody block state supply = .ok (fees, subsidy, after) ↔
      Executes block state supply fees subsidy after := by
  simp only [executeBody, bind_eq_ok, raiseIf_eq_ok, exists_const, pure_eq_ok,
    AccountState.copy_eq_ok, Prod.exists, not_not, not_lt, gt_iff_lt, Prod.mk.injEq]
  constructor
  · rintro ⟨working, ⟨wf, rfl⟩, collected, paid, batch, scheduled, subsidyOk, fits, amount, final,
      credit, rfl, rfl, rfl⟩
    exact ⟨wf, subsidyOk, fits, amount, paid, batch, credit⟩
  · rintro ⟨wf, subsidyOk, fits, amount, paid, batch, credit⟩
    exact ⟨state, ⟨wf, rfl⟩, fees, paid, batch, subsidy, subsidyOk, fits, amount, after, credit,
      rfl, rfl, rfl⟩

/-- The conditions under which a block is valid on a parent, and what it leads to. -/
structure ValidBlock (block parent : Block) (state : AccountState) (supply : Int)
    (network : NetworkConfig) (target : Int) (execution : BlockExecution) : Prop where
  supply_range : 0 ≤ supply ∧ supply ≤ maxSupplyAtoms
  header : ValidHeader block parent state network target
  reward : ValidReward block network
  executes : Executes block state supply execution.feesAtoms execution.subsidyAtoms execution.state
  stateRoot_eq : execution.state.stateRoot = .ok block.header.stateRoot
  supply_eq : execution.totalSupplyAtoms = supply + execution.subsidyAtoms

/-- **Validation succeeds exactly for valid blocks.** -/
theorem validateAndExecuteBlock_eq_ok {block parent : Block} {state : AccountState}
    {supply : Int} {network : NetworkConfig} {target : Int} {execution : BlockExecution} :
    validateAndExecuteBlock block (some parent) state supply network (some target) =
        .ok execution ↔
      ValidBlock block parent state supply network target execution := by
  simp only [validateAndExecuteBlock, bind_eq_ok, rethrow_eq_ok, raiseIf_eq_ok, pure_eq_ok,
    validateSupply_eq_ok, validateHeader_eq_ok, validateReward_eq_ok, exists_const, Prod.exists,
    executeBody_eq_ok, not_not]
  constructor
  · rintro ⟨supplyRange, header, reward, fees, subsidy, after, executes, root, rootOk, rootEq, rfl⟩
    exact ⟨supplyRange, header, reward, executes, rootEq ▸ rootOk, rfl⟩
  · rintro ⟨supplyRange, header, reward, executes, rootOk, supplyEq⟩
    refine ⟨supplyRange, header, reward, _, _, _, executes, _, rootOk, rfl, ?_⟩
    rw [← supplyEq]

namespace ValidBlock

variable {block parent : Block} {state : AccountState} {supply : Int} {network : NetworkConfig}
  {target : Int} {execution : BlockExecution}

/-- The batch of a valid block and the reward after it. -/
theorem batch (valid : ValidBlock block parent state supply network target execution) :
    ∃ paid, AccountState.Batch block.header.height state block.transactions paid ∧
      execution.feesAtoms = AccountState.totalFees block.transactions ∧
      paid.Rewarded block.rewardTransaction.minerAddress
        (execution.subsidyAtoms + AccountState.totalFees block.transactions) execution.state := by
  obtain ⟨paid, run, credit⟩ := valid.executes.run
  obtain ⟨-, -, batch, fees⟩ := AccountState.applyTransactions_ok run
  rw [valid.executes.amount_eq, fees] at credit
  exact ⟨paid, batch, fees, AccountState.rewarded_of_creditReward credit⟩

theorem network_eq (valid : ValidBlock block parent state supply network target execution) :
    execution.state.network = network := by
  obtain ⟨paid, batch, -, rewarded⟩ := valid.batch
  exact rewarded.network_eq.trans (batch.network_eq.trans valid.header.network_eq)

theorem wellFormed (valid : ValidBlock block parent state supply network target execution) :
    execution.state.WellFormed := by
  obtain ⟨paid, batch, -, rewarded⟩ := valid.batch
  exact rewarded.wellFormed (batch.wellFormed valid.executes.wellFormed)

/-- **A valid block adds exactly its subsidy to the total of all balances.** What the
batch pays in fees the reward returns. -/
theorem total (valid : ValidBlock block parent state supply network target execution) :
    execution.state.totalBalance = state.totalBalance + execution.subsidyAtoms := by
  obtain ⟨paid, batch, -, rewarded⟩ := valid.batch
  rw [rewarded.total, batch.total]
  omega

theorem supply_le (valid : ValidBlock block parent state supply network target execution) :
    0 ≤ execution.totalSupplyAtoms ∧ execution.totalSupplyAtoms ≤ maxSupplyAtoms := by
  have subsidy := blockSubsidy_ok valid.executes.subsidy_ok
  have range := valid.supply_range
  rw [valid.supply_eq]
  omega

/-- **Validity depends on the accounts and not on the order they are kept in.** -/
theorem agrees (valid : ValidBlock block parent state supply network target execution)
    {state' : AccountState} (same : state.Agrees state') :
    ∃ after, ValidBlock block parent state' supply network target { execution with state := after } ∧
      execution.state.Agrees after := by
  obtain ⟨paid, batch, credit⟩ := valid.executes.run
  obtain ⟨⟨fees, paid'⟩, batch', feesEq, samePaid⟩ :=
    same.applyTransactions block.transactions block.header.height _ batch
  simp only at feesEq samePaid
  subst feesEq
  obtain ⟨after, credit', sameAfter⟩ := samePaid.creditReward _ _ _ credit
  refine ⟨after, ⟨valid.supply_range, ?_, valid.reward, ?_, ?_, valid.supply_eq⟩, sameAfter⟩
  · exact { valid.header with network_eq := same.network_eq ▸ valid.header.network_eq }
  · exact ⟨same.wellFormed valid.executes.wellFormed, valid.executes.subsidy_ok,
      valid.executes.fits, valid.executes.amount_eq, paid', batch', credit'⟩
  · exact sameAfter.stateRoot_eq ▸ valid.stateRoot_eq

end ValidBlock

/-! ## The genesis block -/

/-- The genesis block leaves the empty state and issues nothing. -/
theorem validateGenesis_ok {block : Block} {state : AccountState} {supply : Int}
    {network : NetworkConfig} {execution : BlockExecution}
    (run : validateAndExecuteBlock block none state supply network none = .ok execution) :
    genesisBlock network = .ok block ∧ state.WellFormed ∧ execution.state = state ∧
      state.snapshot.accounts = [] ∧ state.snapshot.confirmedTxids = ∅ ∧
      execution.totalSupplyAtoms = 0 := by
  simp only [validateAndExecuteBlock, validateGenesis, bind_eq_ok, raiseIf_eq_ok, pure_eq_ok,
    validateSupply_eq_ok, exists_const, AccountState.copy_eq_ok, not_or, not_not] at run
  obtain ⟨-, ⟨noAccounts, noTxids⟩, -, defined, definedOk, same, hash, -, -, copied, ⟨wf, rfl⟩,
    rfl⟩ := run
  exact ⟨same ▸ definedOk, wf, rfl, noAccounts, noTxids, rfl⟩

end Validation

end OurCoin
