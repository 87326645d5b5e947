import OurCoin.Model.State

/-!
# Emission, construction and validation of blocks

`consensus.py` and `miner.py`: the subsidy schedule, the genesis block, the
construction of a candidate on a parent, the bounded search for a nonce, and the
validation of a block against its parent, which returns a new state and never changes
the one it is given.
-/

set_option autoImplicit false

namespace OurCoin

open Raising

def atomsPerOur : Int := 100000000
def maxSupplyAtoms : Int := 100000000 * atomsPerOur
def initialRewardAtoms : Int := 40 * atomsPerOur
def rewardInterval : Int := 500000
def rewardNumerator : Int := 4
def rewardDenominator : Int := 5
def maxBlockTransactions : Int := 10000
def testnetInitialTarget : Int := 2 ^ 252 - 1
def testnetGenesisTimestamp : Int := 1786060800
def testnetGenesisNonce : Int := 10
def testnetGenesisMinerAddress : Text := text "tour1n4q74mo7ufkkeylcnp4fibdp2itrw67njmkxszhk"

/-- `BlockError(message)`. -/
def blockError (message : String) : Raised := ⟨.blockError, message⟩

/-- The result of executing a block. -/
structure BlockExecution where
  state : AccountState
  totalSupplyAtoms : Int
  subsidyAtoms : Int
  feesAtoms : Int

/-- Refuse a supply outside the range of the network. -/
def validateSupply (totalSupplyAtoms : Int) : Except Raised Unit :=
  raiseIf (¬ (0 ≤ totalSupplyAtoms ∧ totalSupplyAtoms ≤ maxSupplyAtoms))
    (blockError "total supply is outside the consensus range")

/-! ## Emission -/

/-- `while elapsed_eras < era and reward > 0`, with `era - elapsed_eras` rounds left. -/
def rewardLoop : Nat → Int → Int
  | 0, reward => reward
  | remaining + 1, reward =>
    if reward > 0 then rewardLoop remaining (reward * rewardNumerator / rewardDenominator)
    else reward

/-- The scheduled subsidy, capped by the remaining maximum supply. -/
def blockSubsidy (height totalSupplyAtoms : Int) : Except Raised Int := do
  raiseIf (¬ (0 ≤ height ∧ height ≤ u64Max))
    (blockError "block height must be an unsigned 64-bit integer")
  validateSupply totalSupplyAtoms
  if height = 0 ∨ totalSupplyAtoms = maxSupplyAtoms then return 0
  else
    let era := height / rewardInterval
    return min (rewardLoop era.toNat initialRewardAtoms) (maxSupplyAtoms - totalSupplyAtoms)

/-! ## Genesis -/

/-- The reward of the genesis block, which pays nothing. -/
def genesisReward (network : NetworkConfig) : RewardTransaction where
  version := rewardTransactionVersion
  chainId := network.chainId
  height := 0
  minerAddress := testnetGenesisMinerAddress
  amountAtoms := 0

/-- The genesis block of the testnet; no other network has one. -/
def genesisBlock [Platform] (network : NetworkConfig) : Except Raised Block := do
  raiseIf (network ≠ testnet) (blockError "M3 defines only the testnet genesis block")
  let emptyState ← AccountState.new Dict.empty ∅ network
  let reward := genesisReward network
  let header : BlockHeader := {
    version := blockVersion
    chainId := network.chainId
    height := 0
    previousBlockHash := List.replicate 32 0
    transactionsRoot := ← transactionsRoot reward []
    stateRoot := ← emptyState.stateRoot
    timestamp := testnetGenesisTimestamp
    difficultyTarget := testnetInitialTarget
    nonce := testnetGenesisNonce
    minerAddress := testnetGenesisMinerAddress }
  return { header, rewardTransaction := reward, transactions := [] }

/-! ## Construction -/

/-- The reward of a block: the subsidy and the collected fees, credited on the working
copy. -/
def buildReward [Platform] (state : AccountState) (totalSupplyAtoms height : Int)
    (minerAddress : Text) (transactions : List Transaction) :
    Except Raised (RewardTransaction × AccountState) := do
  let working ← state.copy
  let (fees, working) ← working.applyTransactions transactions height
  let subsidy ← blockSubsidy height totalSupplyAtoms
  let rewardAmount := subsidy + fees
  raiseIf (rewardAmount > u64Max) (blockError "block reward plus fees exceed uint64")
  let reward : RewardTransaction := {
    version := rewardTransactionVersion
    chainId := state.network.chainId
    height
    minerAddress
    amountAtoms := rewardAmount }
  return (reward, ← working.creditReward minerAddress rewardAmount)

/-- Build a candidate with the right state root. Proof of Work is added separately. -/
def buildBlockCandidate [Platform] (parent : Block) (state : AccountState)
    (totalSupplyAtoms : Int) (minerAddress : Text) (transactions : List Transaction)
    (timestamp : Int) (difficultyTarget : Option Int) : Except Raised Block := do
  validateSupply totalSupplyAtoms
  raiseIf (parent.header.height = u64Max) (blockError "parent height is exhausted")
  let height := parent.header.height + 1
  raiseIf (¬ (0 ≤ timestamp ∧ timestamp ≤ u64Max))
    (blockError "block timestamp must be an unsigned 64-bit integer")
  raiseIf (timestamp ≤ parent.header.timestamp)
    (blockError "block timestamp must be greater than its parent's timestamp")
  raiseIf ((transactions.length : Int) > maxBlockTransactions)
    (blockError "block contains too many transactions")
  let target := difficultyTarget.getD parent.header.difficultyTarget
  raiseIf (¬ (0 < target ∧ target ≤ maxTarget))
    (blockError "candidate difficulty target is outside the allowed range")
  let _ ← rethrow (reraiseAs (· == .addressError) .blockError
    "miner address is invalid for this network") (decodeAddress minerAddress state.network)
  let (reward, working) ← rethrow (reraiseSame (· == .stateError) .blockError)
    (buildReward state totalSupplyAtoms height minerAddress transactions)
  let header : BlockHeader := {
    version := blockVersion
    chainId := state.network.chainId
    height
    previousBlockHash := ← parent.blockHash
    transactionsRoot := ← transactionsRoot reward transactions
    stateRoot := ← working.stateRoot
    timestamp
    difficultyTarget := target
    nonce := 0
    minerAddress }
  return { header, rewardTransaction := reward, transactions }

/-! ## Validation -/

/-- Accept the genesis block and nothing else at height 0. -/
def validateGenesis [Platform] (block : Block) (state : AccountState) (totalSupplyAtoms : Int)
    (network : NetworkConfig) : Except Raised BlockExecution := do
  raiseIf (state.snapshot.accounts ≠ [] ∨ state.snapshot.confirmedTxids ≠ ∅)
    (blockError "genesis requires an empty account state")
  raiseIf (totalSupplyAtoms ≠ 0) (blockError "genesis requires zero existing supply")
  raiseIf (block ≠ (← genesisBlock network))
    (blockError "genesis block does not match the testnet definition")
  raiseIf (¬ hashMeetsTarget (← block.blockHash) block.header.difficultyTarget = true)
    (blockError "genesis Proof of Work is insufficient")
  return { state := ← state.copy, totalSupplyAtoms := 0, subsidyAtoms := 0, feesAtoms := 0 }

/-- The header rules that need no execution. -/
def validateHeader [Platform] (block parent : Block) (state : AccountState)
    (network : NetworkConfig) (expectedDifficultyTarget : Option Int) : Except Raised Unit := do
  let header := block.header
  raiseIf (header.version ≠ blockVersion) (blockError "unsupported block version")
  raiseIf (header.chainId ≠ network.chainId ∨ state.network ≠ network)
    (blockError "block or state belongs to another network")
  raiseIf (header.height ≠ parent.header.height + 1)
    (blockError "block height does not follow its parent")
  raiseIf (header.previousBlockHash ≠ (← parent.blockHash))
    (blockError "previous block hash does not match the parent")
  raiseIf (header.timestamp ≤ parent.header.timestamp)
    (blockError "block timestamp does not increase")
  let requiredTarget := expectedDifficultyTarget.getD parent.header.difficultyTarget
  raiseIf (¬ (0 < requiredTarget ∧ requiredTarget ≤ maxTarget))
    (blockError "expected difficulty target is outside the allowed range")
  raiseIf (header.difficultyTarget ≠ requiredTarget)
    (blockError "block difficulty target does not match the expected target")
  raiseIf (¬ (0 < header.difficultyTarget ∧ header.difficultyTarget ≤ maxTarget))
    (blockError "block difficulty target is outside the allowed range")
  raiseIf ((block.transactions.length : Int) > maxBlockTransactions)
    (blockError "block contains too many transactions")
  let _ ← rethrow (reraiseAs (· == .addressError) .blockError "block miner address is invalid")
    (decodeAddress header.minerAddress network)
  let expectedTransactionsRoot ← rethrow (reraiseAs ErrorClass.isValueError .blockError
    "block transactions are not canonically encodable")
    (transactionsRoot block.rewardTransaction block.transactions)
  raiseIf (header.transactionsRoot ≠ expectedTransactionsRoot)
    (blockError "block transactions root does not match its body")
  let hash ← rethrow (reraiseAs ErrorClass.isValueError .blockError
    "block header is not canonically encodable") block.blockHash
  raiseIf (¬ hashMeetsTarget hash header.difficultyTarget = true)
    (blockError "block Proof of Work is insufficient")

/-- The rules of the reward transaction that need no execution. -/
def validateReward (block : Block) (network : NetworkConfig) : Except Raised Unit := do
  let reward := block.rewardTransaction
  raiseIf (reward.version ≠ rewardTransactionVersion)
    (blockError "unsupported reward transaction version")
  raiseIf (reward.chainId ≠ network.chainId)
    (blockError "reward transaction belongs to another network")
  raiseIf (reward.height ≠ block.header.height)
    (blockError "reward transaction height does not match the block")
  raiseIf (reward.minerAddress ≠ block.header.minerAddress)
    (blockError "reward recipient does not match the block miner")

/-- Execute the transactions and the reward on a working copy: fees, subsidy and the new
state. -/
def executeBody [Platform] (block : Block) (state : AccountState) (totalSupplyAtoms : Int) :
    Except Raised (Int × Int × AccountState) := do
  let working ← state.copy
  let (fees, working) ← working.applyTransactions block.transactions block.header.height
  let subsidy ← blockSubsidy block.header.height totalSupplyAtoms
  let expectedReward := subsidy + fees
  raiseIf (expectedReward > u64Max) (blockError "block reward plus fees exceed uint64")
  raiseIf (block.rewardTransaction.amountAtoms ≠ expectedReward)
    (blockError "reward amount is not the subsidy plus fees")
  let working ← working.creditReward block.rewardTransaction.minerAddress
    block.rewardTransaction.amountAtoms
  return (fees, subsidy, working)

/-- Validate against a parent and return a new state without changing the input. -/
def validateAndExecuteBlock [Platform] (block : Block) (parent : Option Block)
    (state : AccountState) (totalSupplyAtoms : Int) (network : NetworkConfig)
    (expectedDifficultyTarget : Option Int) : Except Raised BlockExecution := do
  validateSupply totalSupplyAtoms
  match parent with
  | none => validateGenesis block state totalSupplyAtoms network
  | some parent => do
    validateHeader block parent state network expectedDifficultyTarget
    validateReward block network
    let (fees, subsidy, working) ← rethrow (reraiseSame (· == .stateError) .blockError)
      (executeBody block state totalSupplyAtoms)
    raiseIf (block.header.stateRoot ≠ (← working.stateRoot))
      (blockError "block state root does not match the executed state")
    return {
      state := working
      totalSupplyAtoms := totalSupplyAtoms + subsidy
      subsidyAtoms := subsidy
      feesAtoms := fees }

/-! ## `miner.py` -/

/-- `MiningError(message)`. -/
def miningError (message : String) : Raised := ⟨.miningError, message⟩

/-- The nonce loop, with the number of attempts left. -/
def mineLoop [Platform] (block : Block) : Nat → Int → Except Raised Block
  | 0, _ => .error (miningError "no valid nonce found within max_attempts")
  | attempts + 1, nonce =>
    if nonce > u64Max then .error (miningError "no valid nonce found within max_attempts")
    else do
      let candidate := block.withNonce nonce
      if hashMeetsTarget (← candidate.blockHash) candidate.header.difficultyTarget = true then
        return candidate
      else mineLoop block attempts (nonce + 1)

/-- Search the nonces from the nonce of the block on. -/
def mineBlock [Platform] (block : Block) (maxAttempts : Int) : Except Raised Block := do
  raiseIf (maxAttempts ≤ 0) (miningError "max_attempts must be a positive integer")
  mineLoop block maxAttempts.toNat block.header.nonce

end OurCoin
