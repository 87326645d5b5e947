import OurCoin.Node.Mining

/-!
# Timestamps of candidates

A candidate needs a timestamp after that of its parent that still fits 64 bits, and nothing else
can go wrong with it (`Chain.Refines.exists_candidate_iff`). No rule bounds a timestamp from
above, so a valid block may carry the last one, and then no block can follow it.

* `Chain.Reachable.extension_times`: on every stored block exactly the later timestamps make a
  candidate, so there is one unless the block carries the last timestamp, and `mine` without a
  timestamp builds its candidate unless the tip is within one target interval of the end.
* `lastChain` is a chain whose tip no block can follow (`lastChain_frozen`).
-/

set_option autoImplicit false

namespace OurCoin

open Raising

variable [Platform]

namespace Chain

variable {chain : Chain} {hash : Bytes} {entry : ChainEntry}

/-- **Exactly the later timestamps make a candidate** from transactions that execute on the
parent. -/
theorem Refines.exists_candidate_iff (refines : chain.Refines)
    (stored : chain.entries.get? hash = some entry) (left : entry.record.height < u64Max)
    {miner : Text} (minerValid : ∃ key, decodeAddress miner testnet = .ok key)
    {transactions : List Transaction} (few : (transactions.length : Int) ≤ maxBlockTransactions)
    {state paid : AccountState}
    (restored : AccountState.fromSnapshot entry.stateSnapshot chain.network = .ok state)
    (batch : AccountState.Batch (entry.record.height + 1) state transactions paid) {timestamp : Int} :
    (∃ candidate, chain.buildCandidate miner transactions timestamp (some hash) = .ok candidate) ↔
      entry.block.header.timestamp < timestamp ∧ timestamp ≤ u64Max := by
  constructor
  · rintro ⟨candidate, made⟩
    simp only [buildCandidate, bind_eq_ok, rethrow_eq_ok, entryOf_eq_ok, Option.getD_some,
      buildBlockCandidate_eq_ok, stored, Option.some.injEq, exists_eq_left'] at made
    obtain ⟨_, -, _, -, candidateOk⟩ := made
    exact ⟨candidateOk.timestamp_lt, candidateOk.timestamp_range.2⟩
  · rintro ⟨later, small⟩
    have parentHash := refines.blockHash_ok stored
    have parentTime := (BlockHeader.exists_blockHash.mp ⟨_, parentHash⟩).timestamp_range
    obtain ⟨target, candidate, -, made, -⟩ := refines.exists_candidate stored left
      (refines.network_eq ▸ minerValid) later ⟨by omega, small⟩ few restored batch
    exact ⟨candidate, made⟩

/-- When a candidate without transactions can be built. -/
theorem Refines.exists_empty_candidate_iff (refines : chain.Refines)
    (stored : chain.entries.get? hash = some entry) (left : entry.record.height < u64Max)
    {miner : Text} (minerValid : ∃ key, decodeAddress miner testnet = .ok key) {timestamp : Int} :
    (∃ candidate, chain.buildCandidate miner [] timestamp (some hash) = .ok candidate) ↔
      entry.block.header.timestamp < timestamp ∧ timestamp ≤ u64Max := by
  obtain ⟨state, restored, -⟩ := refines.exists_parent_state stored
  exact refines.exists_candidate_iff stored left minerValid (by decide) restored (.nil state)

end Chain

/-- The default timestamp of `mine` makes a candidate unless it does not fit 64 bits. -/
theorem LocalNode.Invariant.mineCandidate_default {node : LocalNode} (inv : node.Invariant)
    (left : node.chain.height < u64Max) {miner : Text}
    (minerValid : ∃ key, decodeAddress miner testnet = .ok key) {maxTransactions : Int}
    (range : 0 ≤ maxTransactions ∧ maxTransactions ≤ maxBlockTransactions) :
    (node.chain.tip.header.timestamp + targetBlockSeconds ≤ u64Max →
      ∃ selected candidate,
        node.chain.buildCandidate miner selected
          (node.chain.tip.header.timestamp + targetBlockSeconds) none = .ok candidate ∧
        ∀ maxAttempts, node.mineCandidate miner none maxTransactions maxAttempts =
          mineBlock candidate maxAttempts) ∧
    (u64Max < node.chain.tip.header.timestamp + targetBlockSeconds →
      ∀ maxAttempts, ∃ e, node.mineCandidate miner none maxTransactions maxAttempts = .error e) := by
  have interval : (0 : Int) < targetBlockSeconds := by decide
  constructor
  · intro fits
    obtain ⟨state, selected, candidate, -, -, made, mines⟩ :=
      inv.exists_candidate left minerValid (Int.lt_add_of_pos_right _ interval) fits range
    exact ⟨selected, candidate, made, mines⟩
  · intro late maxAttempts
    cases outcome : node.mineCandidate miner none maxTransactions maxAttempts with
    | error e => exact ⟨e, rfl⟩
    | ok block =>
        simp only [LocalNode.mineCandidate, bind_eq_ok, Chain.buildCandidate, rethrow_eq_ok,
          buildBlockCandidate_eq_ok, Option.getD_none] at outcome
        obtain ⟨_, -, _, -, _, -, _, ⟨_, -, _, -, _, -, candidateOk⟩, -⟩ := outcome
        exact absurd candidateOk.timestamp_range.2 (by omega)

namespace Chain

/-- The timestamps at which a chain can be extended. -/
structure ExtensionTimes (chain : Chain) : Prop where
  /-- A stored block can be extended unless it carries the last timestamp. -/
  extendable_iff : ∀ hash entry, chain.entries.get? hash = some entry →
    entry.record.height < 2 ^ 64 - 1 → ∀ miner, (∃ key, decodeAddress miner testnet = .ok key) →
    ((∃ timestamp : Int, (0 ≤ timestamp ∧ timestamp ≤ 2 ^ 64 - 1) ∧
        ∃ candidate, chain.buildCandidate miner [] timestamp (some hash) = .ok candidate) ↔
      entry.block.header.timestamp < 2 ^ 64 - 1)
  /-- `mine` without a timestamp builds a candidate unless the tip is too late. -/
  mine_default : ∀ node : LocalNode, node.Reachable → node.chain = chain →
    chain.height < 2 ^ 64 - 1 → ∀ miner, (∃ key, decodeAddress miner testnet = .ok key) →
    ∀ maxTransactions, 0 ≤ maxTransactions ∧ maxTransactions ≤ 10000 →
    (chain.tip.header.timestamp + 60 ≤ 2 ^ 64 - 1 →
      ∃ selected candidate,
        chain.buildCandidate miner selected (chain.tip.header.timestamp + 60) none = .ok candidate ∧
        ∀ maxAttempts, node.mineCandidate miner none maxTransactions maxAttempts =
          mineBlock candidate maxAttempts) ∧
    (2 ^ 64 - 1 < chain.tip.header.timestamp + 60 →
      ∀ maxAttempts, ∃ e, node.mineCandidate miner none maxTransactions maxAttempts = .error e)

/-- **A block can be extended exactly when a later timestamp exists.** -/
theorem Reachable.extension_times {chain : Chain} (reachable : chain.Reachable) :
    chain.ExtensionTimes := by
  have refines := reachable.refines
  constructor
  · intro hash entry stored left miner minerValid
    have candidates := fun timestamp =>
      @Refines.exists_empty_candidate_iff _ _ _ _ refines stored left _ minerValid timestamp
    constructor
    · rintro ⟨timestamp, range, made⟩
      have later := ((candidates timestamp).mp made).1
      omega
    · intro early
      have parentHash := refines.blockHash_ok stored
      have parentTime := (BlockHeader.exists_blockHash.mp ⟨_, parentHash⟩).timestamp_range
      refine ⟨2 ^ 64 - 1, by omega, (candidates _).mpr ⟨early, by decide⟩⟩
  · rintro node nodeReachable rfl left miner minerValid maxTransactions range
    exact nodeReachable.invariant.mineCandidate_default left minerValid range

omit [Platform] in
theorem extension_times_first : @ExtensionTimes asciiPlatform firstChain :=
  @Reachable.extension_times asciiPlatform firstChain firstChain_reachable

end Chain

/-! ## A block at the last moment -/

/-- A block on the genesis block that carries the last timestamp. -/
def lastBlock : Block where
  header := { firstBlock.header with
    timestamp := u64Max
    nonce := 23 }
  rewardTransaction := firstBlock.rewardTransaction
  transactions := []

/-- The hash of `lastBlock`. -/
def lastHash : Bytes :=
  BigEndian.toBytes 32 0x03c00e518cf847873c69c09e448dce2bc97dbb22bfcd1847cf23651ea4417f12

/-- The genesis chain with `lastBlock`. -/
def lastChain : Chain := (@Chain.addBlock asciiPlatform genesisChain lastBlock).2

omit [Platform] in
theorem lastChain_reachable : @Chain.Reachable asciiPlatform lastChain :=
  @Chain.Reachable.addBlock asciiPlatform genesisChain lastBlock
    (@Chain.Reachable.init asciiPlatform genesisChain (@Chain.init_testnet asciiPlatform))

omit [Platform] in
/-- **No block can follow the last moment**, although the height is far from exhausted. -/
theorem lastChain_frozen : @Chain.Reachable asciiPlatform lastChain ∧
    (∃ key, decodeAddress testnetGenesisMinerAddress testnet = .ok key) ∧
    ∃ hash entry, lastChain.entries.get? hash = some entry ∧ entry.record.height < 2 ^ 64 - 1 ∧
      ∀ timestamp : Int, 0 ≤ timestamp ∧ timestamp ≤ 2 ^ 64 - 1 →
        ¬ ∃ candidate, @Chain.buildCandidate asciiPlatform lastChain testnetGenesisMinerAddress []
          timestamp (some hash) = .ok candidate := by
  have refines := @Chain.Reachable.refines asciiPlatform _ lastChain_reachable
  have evaluated : (lastChain.entries.get? lastHash).map (fun entry =>
      (entry.record.height, entry.block.header.timestamp)) = some (1, 2 ^ 64 - 1) := by
    decide +kernel
  obtain ⟨entry, stored, values⟩ := Option.map_eq_some_iff.mp evaluated
  obtain ⟨height, time⟩ := Prod.mk.inj values
  refine ⟨lastChain_reachable, LocalNode.genesisMiner_valid, lastHash, entry, stored, by omega, ?_⟩
  intro timestamp range made
  have later := ((@Chain.Refines.exists_empty_candidate_iff asciiPlatform _ _ _ refines stored
    (by rw [height]; decide) _ LocalNode.genesisMiner_valid timestamp).mp made).1
  omega

end OurCoin
