import OurCoin.Model.Consensus

/-!
# The block tree

`chain.py`: validated blocks on all known branches, each with its record and the
snapshot of the state after it, and the active tip, the entry of greatest cumulative
work. A chain carries the proof that its active tip is stored.

The loops along parent hashes are bounded by the height of the entry they start at.
A loop that would run longer raises `diverges`.
-/

set_option autoImplicit false

namespace OurCoin

open Raising

def targetBlockSeconds : Int := 60
def difficultyAdjustmentInterval : Int := 120
def difficultyMaxAdjustmentFactor : Int := 4
def expectedAdjustmentTimespan : Int := (difficultyAdjustmentInterval - 1) * targetBlockSeconds

/-- `ChainError(message)`. -/
def chainError (message : String) : Raised := ⟨.chainError, message⟩

/-- `KeyError`, as a dictionary lookup raises it. -/
def keyError : Raised := ⟨.keyError, ""⟩

/-- The mark of a loop that exceeds its bound. -/
def diverges : Raised := ⟨.diverges, ""⟩

/-- What the chain remembers of a block beside its bytes. -/
structure BlockRecord where
  blockHash : Bytes
  parentHash : Option Bytes
  height : Int
  cumulativeWork : Int
  totalSupplyAtoms : Int
  deriving DecidableEq

/-- What `add_block` reports. -/
structure ChainUpdate where
  addedBlockHash : Bytes
  activeTipHash : Bytes
  becameActive : Bool
  reorganized : Bool
  commonAncestorHash : Option Bytes
  disconnected : List Bytes
  connected : List Bytes
  deriving DecidableEq

/-- The update of a block that stays on a side branch. -/
def ChainUpdate.side (addedBlockHash activeTipHash : Bytes) : ChainUpdate where
  addedBlockHash
  activeTipHash
  becameActive := false
  reorganized := false
  commonAncestorHash := none
  disconnected := []
  connected := []

/-- The update of a block that becomes the active tip. -/
def ChainUpdate.active (addedBlockHash commonAncestorHash : Bytes)
    (disconnected connected : List Bytes) : ChainUpdate where
  addedBlockHash
  activeTipHash := addedBlockHash
  becameActive := true
  reorganized := decide (disconnected ≠ [])
  commonAncestorHash := some commonAncestorHash
  disconnected
  connected

/-- A stored block with its record and the snapshot of its state. -/
structure ChainEntry where
  block : Block
  record : BlockRecord
  stateSnapshot : StateSnapshot
  deriving DecidableEq

/-- The expected work of one header. -/
def workForTarget (target : Int) : Except Raised Int := do
  raiseIf (¬ (0 < target ∧ target ≤ maxTarget))
    (chainError "work target must be between 1 and 2^256 - 1")
  return 2 ^ 256 / (target + 1)

/-- Scale a target by a timespan within the bounds of one adjustment. -/
def adjustedTarget (target actualTimespan : Int) : Int :=
  let minimumTimespan := expectedAdjustmentTimespan / difficultyMaxAdjustmentFactor
  let maximumTimespan := expectedAdjustmentTimespan * difficultyMaxAdjustmentFactor
  let boundedTimespan := min (max actualTimespan minimumTimespan) maximumTimespan
  let adjusted := target * boundedTimespan / expectedAdjustmentTimespan
  min (max adjusted 1) maxTarget

/-- Validated blocks on all known branches with one cumulative-work tip. -/
structure Chain where
  network : NetworkConfig
  entries : Dict Bytes ChainEntry
  activeTipHash : Bytes
  tip_stored : (entries.get? activeTipHash).isSome = true

namespace Chain

/-- `Chain(network=network)`. -/
def init [Platform] (network : NetworkConfig) : Except Raised Chain := do
  raiseIf (network ≠ testnet) (chainError "M4 currently defines only the testnet chain")
  let genesis ← genesisBlock network
  let emptyState ← AccountState.new Dict.empty ∅ network
  let execution ← validateAndExecuteBlock genesis none emptyState 0 network none
  let blockHash ← genesis.blockHash
  let record : BlockRecord := {
    blockHash
    parentHash := none
    height := 0
    cumulativeWork := ← workForTarget genesis.header.difficultyTarget
    totalSupplyAtoms := execution.totalSupplyAtoms }
  return {
    network
    entries := Dict.empty.set blockHash ⟨genesis, record, execution.state.snapshot⟩
    activeTipHash := blockHash
    tip_stored := by simp }

/-- `self._entries[self._active_tip_hash]`. -/
def tipEntry (chain : Chain) : ChainEntry := (chain.entries.get? chain.activeTipHash).get chain.tip_stored

/-- The block of the active tip. -/
def tip (chain : Chain) : Block := chain.tipEntry.block

/-- The height of the active tip. -/
def height (chain : Chain) : Int := chain.tipEntry.record.height

/-- The work of the active branch. -/
def cumulativeWork (chain : Chain) : Int := chain.tipEntry.record.cumulativeWork

/-- The supply that the active branch has issued. -/
def totalSupplyAtoms (chain : Chain) : Int := chain.tipEntry.record.totalSupplyAtoms

/-- The state of the active tip, restored from its snapshot. -/
def state (chain : Chain) : Except Raised AccountState :=
  AccountState.fromSnapshot chain.tipEntry.stateSnapshot chain.network

/-- An independent tree over the same entries. -/
def copy [Platform] (chain : Chain) : Except Raised Chain := do
  let copied ← init chain.network
  return { copied with
    entries := chain.entries
    activeTipHash := chain.activeTipHash
    tip_stored := chain.tip_stored }

/-- `contains(block_hash)`. -/
def contains (chain : Chain) (blockHash : Bytes) : Bool := chain.entries.contains blockHash

/-- `self._entries[block_hash]`, with the exception for an unknown hash. -/
def entryOf (chain : Chain) (blockHash : Bytes) (unknown : Raised) : Except Raised ChainEntry :=
  match chain.entries.get? blockHash with
  | some entry => .ok entry
  | none => .error unknown

/-- A stored block. -/
def getBlock (chain : Chain) (blockHash : Bytes) : Except Raised Block := do
  return (← chain.entryOf blockHash (chainError "unknown block hash")).block

/-- The record of a stored block. -/
def getRecord (chain : Chain) (blockHash : Bytes) : Except Raised BlockRecord := do
  return (← chain.entryOf blockHash (chainError "unknown block hash")).record

/-- The state after a stored block. -/
def getState (chain : Chain) (blockHash : Bytes) : Except Raised AccountState := do
  let entry ← chain.entryOf blockHash (chainError "unknown block hash")
  AccountState.fromSnapshot entry.stateSnapshot chain.network

/-! ## Walking along a branch -/

/-- A position on a branch, with the hashes it was reached through. -/
structure Walk where
  hash : Bytes
  entry : ChainEntry
  passed : List Bytes

/-- `while entry.record.height > height`: move to the parent. -/
def walkDown (chain : Chain) (height : Int) (noParent : Raised) : Nat → Walk → Except Raised Walk
  | fuel, walk =>
    if walk.entry.record.height > height then
      match walk.entry.record.parentHash, fuel with
      | none, _ => .error noParent
      | some _, 0 => .error diverges
      | some parentHash, fuel + 1 => do
        walkDown chain height noParent fuel {
          hash := parentHash
          entry := ← chain.entryOf parentHash keyError
          passed := walk.passed ++ [walk.hash] }
    else .ok walk

/-- The ancestor of a stored block at a height of its branch. -/
def ancestorAtHeight (chain : Chain) (blockHash : Bytes) (height : Int) :
    Except Raised ChainEntry := do
  let entry ← chain.entryOf blockHash keyError
  raiseIf (¬ (0 ≤ height ∧ height ≤ entry.record.height))
    (chainError "ancestor height is outside the branch")
  let walk ← chain.walkDown height (chainError "branch ended before the requested ancestor")
    entry.record.height.toNat ⟨blockHash, entry, []⟩
  return walk.entry

/-- The difficulty target that a child of a stored block must have. -/
def expectedTargetForChild (chain : Chain) (parentHash : Bytes) : Except Raised Int := do
  let parent ← chain.entryOf parentHash (chainError "unknown difficulty parent")
  raiseIf (parent.record.height = u64Max) (chainError "parent height is exhausted")
  let nextHeight := parent.record.height + 1
  if nextHeight % difficultyAdjustmentInterval ≠ 0 then
    return parent.block.header.difficultyTarget
  else do
    let windowStart ← chain.ancestorAtHeight parentHash (nextHeight - difficultyAdjustmentInterval)
    return adjustedTarget parent.block.header.difficultyTarget
      (parent.block.header.timestamp - windowStart.block.header.timestamp)

/-- `parentHash` is optional: without it the candidate extends the active tip. -/
def buildCandidate [Platform] (chain : Chain) (minerAddress : Text)
    (transactions : List Transaction) (timestamp : Int) (parentHash : Option Bytes) :
    Except Raised Block := do
  let selectedParentHash := parentHash.getD chain.activeTipHash
  let parent ← chain.entryOf selectedParentHash (chainError "cannot build on an unknown parent")
  let state ← AccountState.fromSnapshot parent.stateSnapshot chain.network
  rethrow (reraiseSame (· == .blockError) .chainError) (do
    let target ← chain.expectedTargetForChild selectedParentHash
    buildBlockCandidate parent.block state parent.record.totalSupplyAtoms minerAddress transactions
      timestamp (some target))

/-- `while old_hash != new_hash`: move both positions to their parents. -/
def walkTogether (chain : Chain) : Nat → Walk → Walk → Except Raised (Walk × Walk)
  | fuel, oldWalk, newWalk =>
    if oldWalk.hash ≠ newWalk.hash then
      match oldWalk.entry.record.parentHash, newWalk.entry.record.parentHash, fuel with
      | none, _, _ => .error (chainError "branches have no common ancestor")
      | _, none, _ => .error (chainError "branches have no common ancestor")
      | some _, some _, 0 => .error diverges
      | some oldParent, some newParent, fuel + 1 => do
        let oldEntry ← chain.entryOf oldParent keyError
        let newEntry ← chain.entryOf newParent keyError
        walkTogether chain fuel
          ⟨oldParent, oldEntry, oldWalk.passed ++ [oldWalk.hash]⟩
          ⟨newParent, newEntry, newWalk.passed ++ [newWalk.hash]⟩
    else .ok (oldWalk, newWalk)

/-- The common ancestor of two blocks, the hashes from the first down to it, and the
hashes from it up to the second. -/
def reorganizationPaths (chain : Chain) (oldTipHash newTipHash : Bytes) :
    Except Raised (Bytes × List Bytes × List Bytes) := do
  let oldEntry ← chain.entryOf oldTipHash keyError
  let newEntry ← chain.entryOf newTipHash keyError
  let oldWalk ← chain.walkDown newEntry.record.height
    (chainError "old branch has no common ancestor") oldEntry.record.height.toNat
    ⟨oldTipHash, oldEntry, []⟩
  let newWalk ← chain.walkDown oldWalk.entry.record.height
    (chainError "new branch has no common ancestor") newEntry.record.height.toNat
    ⟨newTipHash, newEntry, []⟩
  let (oldWalk, newWalk) ← chain.walkTogether oldWalk.entry.record.height.toNat oldWalk newWalk
  return (oldWalk.hash, oldWalk.passed, newWalk.passed.reverse)

/-! ## Adding a block -/

/-- The entry of a new block, after every check of `add_block`. -/
def newEntry [Platform] (chain : Chain) (block : Block) : Except Raised ChainEntry := do
  let blockHash ← rethrow (reraiseAs ErrorClass.isValueError .chainError
    "block header is not canonically encodable") block.blockHash
  raiseIf (chain.contains blockHash = true) (chainError "block is already known")
  let parentHash := block.header.previousBlockHash
  let parent ← chain.entryOf parentHash (chainError "block parent is unknown")
  let parentState ← AccountState.fromSnapshot parent.stateSnapshot chain.network
  let expectedTarget ← chain.expectedTargetForChild parentHash
  let execution ← rethrow (reraiseSame (· == .blockError) .chainError)
    (validateAndExecuteBlock block (some parent.block) parentState parent.record.totalSupplyAtoms
      chain.network (some expectedTarget))
  let record : BlockRecord := {
    blockHash
    parentHash := some parentHash
    height := block.header.height
    cumulativeWork := parent.record.cumulativeWork + (← workForTarget block.header.difficultyTarget)
    totalSupplyAtoms := execution.totalSupplyAtoms }
  return ⟨block, record, execution.state.snapshot⟩

/-- `self._entries[block_hash] = entry`. -/
def store (chain : Chain) (entry : ChainEntry) : Chain where
  network := chain.network
  entries := chain.entries.set entry.record.blockHash entry
  activeTipHash := chain.activeTipHash
  tip_stored := by
    have stored := chain.tip_stored
    rw [Dict.get?_set]
    split
    · rfl
    · exact stored

/-- The chain with an entry stored and made the active tip. -/
def storeActive (chain : Chain) (entry : ChainEntry) : Chain where
  network := chain.network
  entries := chain.entries.set entry.record.blockHash entry
  activeTipHash := entry.record.blockHash
  tip_stored := by simp

/-- Validate a block, store its entry, and make it the active tip when its branch has
more work. The entry is stored before the reorganization paths are computed. -/
def addBlock [Platform] (chain : Chain) (block : Block) : Outcome Raised Chain ChainUpdate :=
  match chain.newEntry block with
  | .error e => (.error e, chain)
  | .ok entry =>
    let stored := chain.store entry
    let hash := entry.record.blockHash
    if entry.record.cumulativeWork > stored.tipEntry.record.cumulativeWork then
      match stored.reorganizationPaths stored.activeTipHash hash with
      | .error e => (.error e, stored)
      | .ok (common, disconnected, connected) =>
        (.ok (.active hash common disconnected connected), chain.storeActive entry)
    else (.ok (.side hash stored.activeTipHash), stored)

/-! ## The active chain -/

/-- The blocks from the root to an entry, followed by the blocks already collected. -/
def collectBranch (chain : Chain) : Nat → ChainEntry → List Block → Except Raised (List Block)
  | fuel, entry, later =>
    match entry.record.parentHash, fuel with
    | none, _ => .ok (entry.block :: later)
    | some _, 0 => .error diverges
    | some parentHash, fuel + 1 => do
      collectBranch chain fuel (← chain.entryOf parentHash keyError) (entry.block :: later)

/-- The blocks from the genesis block to the active tip. -/
def activeChain (chain : Chain) : Except Raised (List Block) :=
  chain.collectBranch chain.tipEntry.record.height.toNat chain.tipEntry []

end Chain

end OurCoin
