import OurCoin.Ledger.Accounting
import OurCoin.Ledger.Emission
import OurCoin.Tree.Genesis

/-!
# What holds on every branch

The replay law, the two accounting laws and the emission law of the chain, for every
entry of every reachable chain, active or not.

* `Chain.Reachable.replay_law`: an entry is the replay of the blocks that its parent
  hashes lead through, and the active state is the replay of the active chain.
* `Chain.Reachable.supply_conserved`: the balances of an entry sum up to its issued
  supply, which is within its maximum.
* `Chain.Reachable.nonces_exact`: account nonces, confirmed IDs and the transactions on
  the branch tell the same story, and nothing is executed twice or too late.
* `Chain.Reachable.emission`: the issued supply follows the schedule of the heights.

The accounting laws are proved on replays, by induction over the blocks, and carried
over by the refinement.
-/

set_option autoImplicit false

namespace OurCoin

open Raising

variable [Platform]

/-- The transactions of a list of blocks, in the order of execution. -/
def branchTransactions (blocks : List Block) : List Transaction :=
  blocks.flatMap fun block => block.transactions

omit [Platform] in
theorem branchTransactions_append (first second : List Block) :
    branchTransactions (first ++ second) = branchTransactions first ++ branchTransactions second :=
  List.flatMap_append

omit [Platform] in
@[simp] theorem branchTransactions_singleton (block : Block) :
    branchTransactions [block] = block.transactions :=
  List.flatMap_singleton _ _

namespace Replays

variable {network : NetworkConfig} {blocks : List Block} {branch : BranchState}

/-! ## Supply -/

/-- **The balances of a branch sum up to its issued supply.** -/
theorem supply (run : Replays network blocks branch) :
    branch.state.totalBalance = branch.totalSupplyAtoms ∧
      0 ≤ branch.totalSupplyAtoms ∧ branch.totalSupplyAtoms ≤ maxSupplyAtoms := by
  induction run with
  | genesis start =>
      obtain ⟨-, -, -, stateEq, -, supplyEq, -⟩ := replayGenesis_ok start
      rw [stateEq, supplyEq]
      exact ⟨rfl, le_rfl, by decide⟩
  | extend before next ih =>
      obtain ⟨⟨target, execution, -, valid, stateEq, supplyEq⟩, -⟩ := BranchState.extend_eq_ok.mp next
      rw [stateEq, supplyEq]
      exact ⟨by rw [valid.total, ih.1, valid.supply_eq], valid.supply_le⟩

/-- **The issued supply of a branch is what its heights schedule.** -/
theorem supply_scheduled (run : Replays network blocks branch) :
    branch.totalSupplyAtoms = scheduledSupply (blocks.length - 1) := by
  induction run with
  | genesis start =>
      rw [(replayGenesis_ok start).2.2.2.2.2.1]
      rfl
  | @extend blocks branch next block before step ih =>
      obtain ⟨⟨target, execution, -, valid, -, supplyEq⟩, -⟩ := BranchState.extend_eq_ok.mp step
      have height := before.tip_height
      have positive := List.length_pos_iff.mpr before.ne_nil
      have subsidyOk := valid.executes.subsidy_ok
      have fits : block.header.height ≤ u64Max := (blockSubsidy_height subsidyOk).2
      have position : block.header.height = ((blocks.length - 1 : Nat) : Int) + 1 := by
        rw [valid.header.height_eq]
        omega
      rw [position] at subsidyOk fits
      rw [ih, blockSubsidy_scheduled fits] at subsidyOk
      have grown : (blocks ++ [block]).length - 1 = blocks.length - 1 + 1 := by
        rw [List.length_append, List.length_singleton]
        omega
      rw [supplyEq, valid.supply_eq, ih, grown, scheduledSupply_succ, Except.ok.inj subsidyOk]

/-! ## Nonces and IDs -/

/-- The account nonce of an address counts what it sent, and what it sent carries the
nonces from 0 on. -/
theorem nonces (run : Replays network blocks branch) (address : Text) :
    (branch.state.accountOf address).nonce =
        (sentBy address (branchTransactions blocks)).length ∧
      (sentBy address (branchTransactions blocks)).map Transaction.nonce =
        consecutive 0 (sentBy address (branchTransactions blocks)).length := by
  induction run with
  | genesis start =>
      obtain ⟨isGenesis, -, -, stateEq, -⟩ := replayGenesis_ok start
      rw [branchTransactions_singleton, (genesisBlock_ok isGenesis).2.2, stateEq]
      exact ⟨rfl, rfl⟩
  | @extend blocks branch next block before step ih =>
      obtain ⟨⟨target, execution, -, valid, stateEq, -⟩, -⟩ := BranchState.extend_eq_ok.mp step
      obtain ⟨paid, batch, -, rewarded⟩ := valid.batch
      obtain ⟨counted, inOrder⟩ := ih
      have sent := batch.nonces address
      rw [counted] at sent
      rw [branchTransactions_append, branchTransactions_singleton, sentBy_append, List.map_append,
        List.length_append, stateEq, rewarded.nonce, batch.nonce_eq, counted, inOrder, sent,
        consecutive_add, zero_add]
      exact ⟨by push_cast; ring, rfl⟩

/-- The confirmed IDs of a branch are the IDs of its transactions, which are distinct. -/
theorem txids (run : Replays network blocks branch) :
    ∃ ids, (branchTransactions blocks).mapM Transaction.txid = .ok ids ∧ ids.Nodup ∧
      branch.state.confirmedTxids = ids.toFinset := by
  induction run with
  | genesis start =>
      obtain ⟨isGenesis, -, -, stateEq, -⟩ := replayGenesis_ok start
      rw [branchTransactions_singleton, (genesisBlock_ok isGenesis).2.2, stateEq]
      exact ⟨[], rfl, List.nodup_nil, rfl⟩
  | @extend blocks branch next block before step ih =>
      obtain ⟨⟨target, execution, -, valid, stateEq, -⟩, -⟩ := BranchState.extend_eq_ok.mp step
      obtain ⟨paid, batch, -, rewarded⟩ := valid.batch
      obtain ⟨ids, idsOk, nodup, confirmed⟩ := ih
      obtain ⟨newIds, newOk, newNodup, fresh, union⟩ := batch.txids
      refine ⟨ids ++ newIds, ?_, ?_, ?_⟩
      · rw [branchTransactions_append, branchTransactions_singleton, mapM_eq_ok]
        exact List.rel_append (mapM_eq_ok.mp idsOk) (mapM_eq_ok.mp newOk)
      · rw [List.nodup_append]
        refine ⟨nodup, newNodup, ?_⟩
        intro old oldMem new newMem
        rintro rfl
        refine fresh old newMem ?_
        rw [confirmed]
        exact List.mem_toFinset.mpr oldMem
      · rw [stateEq, rewarded.confirmedTxids_eq, union, confirmed, List.toFinset_append]

/-- An ID is confirmed exactly when a transaction of the branch has it. -/
theorem mem_confirmed (run : Replays network blocks branch) {txid : Bytes} :
    txid ∈ branch.state.confirmedTxids ↔
      ∃ tx ∈ branchTransactions blocks, tx.txid = .ok txid := by
  obtain ⟨ids, idsOk, -, confirmed⟩ := run.txids
  rw [confirmed, List.mem_toFinset, mem_of_mapM_eq_ok idsOk]

/-- Every transaction of a branch was valid, and was included before it expired. -/
theorem alive (run : Replays network blocks branch) :
    ∀ block ∈ blocks, ∀ tx ∈ block.transactions,
      tx.IntrinsicallyValid network ∧ block.header.height ≤ tx.validUntilHeight := by
  induction run with
  | genesis start =>
      intro block member tx txMem
      rw [List.mem_singleton] at member
      subst member
      rw [(genesisBlock_ok (replayGenesis_ok start).1).2.2] at txMem
      cases txMem
  | @extend blocks branch next block before step ih =>
      obtain ⟨⟨target, execution, -, valid, -, -⟩, -⟩ := BranchState.extend_eq_ok.mp step
      obtain ⟨paid, batch, -, -⟩ := valid.batch
      intro other member tx txMem
      rcases List.mem_append.mp member with old | new
      · exact ih other old tx txMem
      · rw [List.mem_singleton] at new
        subst new
        have fine := batch.alive tx txMem
        rwa [before.network_eq] at fine

end Replays

/-! ## Reachable chains -/

namespace Chain

/-- What the stored blocks of a chain have to do with a replay of their branches. -/
structure ReplayLaw (chain : Chain) : Prop where
  /-- From every stored block, following parent hashes leads through entries with falling
  heights and timestamps to the genesis entry, in as many steps as the height says, and
  the record and the state of the block are those of executing the blocks of that path. -/
  stored : ∀ hash entry, chain.entries.get? hash = some entry → ∃ path branch state genesis,
    chain.Lineage hash path ∧ (path.length : Int) = entry.record.height + 1 ∧
    CountsHeights path ∧
    ((pathBlocks path).Pairwise fun lower upper =>
      lower.header.timestamp < upper.header.timestamp) ∧
    genesisBlock testnet = .ok genesis ∧ (pathBlocks path).head? = some genesis ∧
    replay testnet (pathBlocks path) = .ok branch ∧
    chain.getRecord hash = .ok (branch.entry hash entry.record.parentHash).record ∧
    chain.getState hash = .ok state ∧ state.Agrees branch.state
  /-- The active state is a fresh replay of the active chain. -/
  active : ∃ blocks branch state, chain.activeChain = .ok blocks ∧
    replay testnet blocks = .ok branch ∧ chain.state = .ok state ∧ state.Agrees branch.state
  /-- Two chains with the same active chain have the same active state. -/
  independent : ∀ other : Chain, other.Reachable → other.activeChain = chain.activeChain →
    ∃ state state', chain.state = .ok state ∧ other.state = .ok state' ∧ state.Agrees state'

/-- The transactions on the path to a stored block, as its state accounts for them. -/
structure ExactNonces (chain : Chain) (hash : Bytes) (entry : ChainEntry)
    (path : List (Bytes × ChainEntry)) (state : AccountState) (ids : List Bytes) : Prop where
  lineage : chain.Lineage hash path
  state_ok : chain.getState hash = .ok state
  /-- An account nonce is the number of transactions sent. -/
  nonce_eq : ∀ address, (state.accountOf address).nonce =
    (sentBy address (branchTransactions (pathBlocks path))).length
  /-- They carry the nonces 0, 1, 2, … in the order of the path. -/
  nonces_eq : ∀ address,
    (sentBy address (branchTransactions (pathBlocks path))).map Transaction.nonce =
      consecutive 0 (sentBy address (branchTransactions (pathBlocks path))).length
  ids_ok : (branchTransactions (pathBlocks path)).mapM Transaction.txid = .ok ids
  confirmed_eq : entry.stateSnapshot.confirmedTxids = ids.toFinset
  /-- No transaction ID and no pair of sender and nonce occurs twice. -/
  ids_nodup : ids.Nodup
  slots_nodup :
    ((branchTransactions (pathBlocks path)).map fun tx => (tx.senderAddress, tx.nonce)).Nodup
  alive : ∀ block ∈ pathBlocks path, ∀ tx ∈ block.transactions,
    block.header.height ≤ tx.validUntilHeight

/-- The issued supply on the path to a stored block. -/
structure EmissionLaw (chain : Chain) (hash : Bytes) (entry : ChainEntry)
    (path : List (Bytes × ChainEntry)) : Prop where
  lineage : chain.Lineage hash path
  /-- The supply is the sum of the rewards of the heights from 1 on. -/
  supply_eq : entry.record.totalSupplyAtoms =
    ∑ k ∈ Finset.Icc 1 entry.record.height.toNat, eraReward (k / 500000)
  /-- It never falls along the path. -/
  rising : path.Pairwise fun lower upper =>
    lower.2.record.totalSupplyAtoms ≤ upper.2.record.totalSupplyAtoms
  below_max : entry.record.totalSupplyAtoms < maxSupplyAtoms
  /-- The reward of a child is not more than what is left to be issued, and is paid in
  full. -/
  uncapped : eraReward ((entry.record.height.toNat + 1) / 500000) ≤
    maxSupplyAtoms - entry.record.totalSupplyAtoms
  subsidy_eq : entry.record.height < u64Max →
    blockSubsidy (entry.record.height + 1) entry.record.totalSupplyAtoms =
      .ok (eraReward ((entry.record.height.toNat + 1) / 500000))

end Chain

namespace Chain.Reachable

open Payer

variable {chain : Chain}

omit [Platform] in
theorem getState_eq_ok {hash : Bytes} {entry : ChainEntry} {state : AccountState}
    (stored : chain.entries.get? hash = some entry) :
    chain.getState hash = .ok state ↔
      AccountState.fromSnapshot entry.stateSnapshot chain.network = .ok state := by
  rw [getState, entryOf_eq_ok.mpr stored, ok_bind]

/-- The active chain is the branch to the tip. -/
theorem activeChain_eq {path : List (Bytes × ChainEntry)}
    {branch : BranchState} (ends : chain.BranchTo chain.activeTipHash chain.tipEntry path branch) :
    chain.activeChain = .ok (pathBlocks path) := by
  have length := ends.length_eq
  rw [activeChain, collectBranch_eq ends.lineage ends.stored (by omega), List.append_nil]
  rfl

/-- **The replay law** holds on every reachable chain. -/
theorem replay_law (reachable : chain.Reachable) : chain.ReplayLaw := by
  have active : ∀ {chain : Chain}, chain.Reachable → ∃ blocks branch state,
      chain.activeChain = .ok blocks ∧ replay testnet blocks = .ok branch ∧
      chain.state = .ok state ∧ state.Agrees branch.state := by
    intro chain reachable
    have refines := reachable.refines
    obtain ⟨path, branch, ends⟩ := refines.exists_branch chain.tipEntry_stored
    obtain ⟨state, restored, same⟩ := refines.restores ends
    exact ⟨_, branch, state, activeChain_eq ends, replay_eq_ok.mpr ends.replays, restored,
      same⟩
  refine ⟨?_, active reachable, ?_⟩
  · intro hash entry stored
    have refines := reachable.refines
    obtain ⟨path, branch, ends⟩ := refines.exists_branch stored
    obtain ⟨state, restored, same⟩ := refines.restores ends
    obtain ⟨genesis, defined, head⟩ := ends.replays.head_eq
    refine ⟨path, branch, state, genesis, ends.lineage, ends.length_eq,
      refines.countsHeights ends.lineage, ends.replays.timestamps, defined, head,
      replay_eq_ok.mpr ends.replays, ?_, (getState_eq_ok stored).mpr restored, same⟩
    rw [getRecord, entryOf_eq_ok.mpr stored, ok_bind, ← ends.entry_eq]
    rfl
  · intro other otherReachable sameChain
    obtain ⟨blocks, branch, state, chainOk, replayOk, stateOk, same⟩ := active reachable
    obtain ⟨blocks', branch', state', chainOk', replayOk', stateOk', same'⟩ := active otherReachable
    rw [sameChain, chainOk] at chainOk'
    cases chainOk'
    rw [replayOk] at replayOk'
    cases replayOk'
    exact ⟨state, state', stateOk, stateOk', same.trans same'.symm⟩

omit [Platform] in
theorem replay_law_branched : branchedChain.tipEntry.block = transfersBlock ∧
    @ReplayLaw trustingPlatform branchedChain :=
  ⟨branchedChain_tip.2.1, @replay_law trustingPlatform branchedChain branchedChain_reachable⟩

/-- **Conservation of coins.** In every stored entry, on whichever branch, the balances
sum up to the issued supply, which never exceeds the maximum. -/
theorem supply_conserved (reachable : chain.Reachable) {hash : Bytes} {entry : ChainEntry}
    (stored : chain.entries.get? hash = some entry) :
    (entry.stateSnapshot.accounts.map fun item => item.2.balanceAtoms).sum =
        entry.record.totalSupplyAtoms ∧
      entry.record.totalSupplyAtoms ≤ maxSupplyAtoms := by
  obtain ⟨path, branch, ends⟩ := reachable.refines.exists_branch stored
  obtain ⟨total, -, bounded⟩ := ends.replays.supply
  rw [ends.snapshot_eq, ends.supply_eq, AccountState.snapshot_total]
  exact ⟨total, bounded⟩

omit [Platform] in
theorem supply_conserved_branched : branchedChain.tipEntry.block = transfersBlock ∧
    (branchedChain.tipEntry.stateSnapshot.accounts.map fun item => item.2.balanceAtoms).sum =
        branchedChain.tipEntry.record.totalSupplyAtoms ∧
      branchedChain.tipEntry.record.totalSupplyAtoms ≤ maxSupplyAtoms :=
  ⟨branchedChain_tip.2.1, @supply_conserved trustingPlatform branchedChain branchedChain_reachable
    _ _ (tipEntry_stored branchedChain)⟩

/-- **Exact nonces and no replay.** On the path to every stored block the account nonces
count the transactions sent, which carry the nonces 0, 1, 2, … in order; the confirmed
IDs are the IDs on the path; no ID and no pair of sender and nonce occurs twice; and
every transaction was included at a height at which it was still valid. -/
theorem nonces_exact (reachable : chain.Reachable) {hash : Bytes} {entry : ChainEntry}
    (stored : chain.entries.get? hash = some entry) :
    ∃ path state ids, chain.ExactNonces hash entry path state ids := by
  have refines := reachable.refines
  obtain ⟨path, branch, ends⟩ := refines.exists_branch stored
  obtain ⟨state, restored, same⟩ := refines.restores ends
  obtain ⟨ids, idsOk, nodup, confirmed⟩ := ends.replays.txids
  refine ⟨path, state, ids, ends.lineage, (getState_eq_ok stored).mpr restored, ?_,
    fun address => (ends.replays.nonces address).2, idsOk, ?_, nodup, ?_, ?_⟩
  · intro address
    rw [same.accountOf_eq]
    exact (ends.replays.nonces address).1
  · rw [ends.snapshot_eq]
    exact confirmed
  · refine nodup_map_pair fun address => ?_
    have inOrder := (ends.replays.nonces address).2
    rw [sentBy] at inOrder
    rw [inOrder]
    exact nodup_consecutive 0 _
  · intro block member tx txMem
    exact (ends.replays.alive block member tx txMem).2

omit [Platform] in
/-- The tip of the chain confirms two transfers of one sender. -/
theorem nonces_exact_branched :
    branchedChain.tipEntry.block.transactions = [firstTransfer, secondTransfer] ∧
    ∃ path state ids, @ExactNonces trustingPlatform branchedChain
      branchedChain.activeTipHash branchedChain.tipEntry path state ids :=
  ⟨congrArg Block.transactions branchedChain_tip.2.1, @nonces_exact trustingPlatform branchedChain
    branchedChain_reachable _ _ (tipEntry_stored branchedChain)⟩

/-- **The emission schedule.** The issued supply of a stored block is a function of its
height, stays below the maximum, and never makes the cap on the subsidy take effect. -/
theorem emission (reachable : chain.Reachable) {hash : Bytes} {entry : ChainEntry}
    (stored : chain.entries.get? hash = some entry) :
    ∃ path, chain.EmissionLaw hash entry path := by
  have refines := reachable.refines
  have scheduled : ∀ {hash : Bytes} {entry : ChainEntry}, chain.entries.get? hash = some entry →
      0 ≤ entry.record.height ∧
        entry.record.totalSupplyAtoms = scheduledSupply entry.record.height.toNat := by
    intro hash entry stored
    obtain ⟨path, branch, ends⟩ := refines.exists_branch stored
    have length := ends.length_eq
    have positive := List.length_pos_iff.mpr ends.lineage.ne_nil
    have position : (pathBlocks path).length - 1 = entry.record.height.toNat := by
      rw [pathBlocks, List.length_map]
      omega
    refine ⟨by omega, ?_⟩
    rw [ends.supply_eq, ends.replays.supply_scheduled, position]
  obtain ⟨path, branch, ends⟩ := refines.exists_branch stored
  obtain ⟨nonneg, supplyEq⟩ := scheduled stored
  have next := scheduledSupply_lt (entry.record.height.toNat + 1)
  rw [scheduledSupply_succ] at next
  refine ⟨path, ends.lineage, supplyEq, ?_, supplyEq ▸ scheduledSupply_lt _, ?_, ?_⟩
  · have along : ∀ (i : Nat) (inside : i < path.length),
        path[i].2.record.totalSupplyAtoms = scheduledSupply i := by
      intro i inside
      have split : path = path.take i ++ path[i] :: path.drop (i + 1) := by simp
      have height := refines.countsHeights ends.lineage split
      rw [List.length_take, Nat.min_eq_left inside.le] at height
      have here : chain.entries.get? path[i].1 = some path[i].2 :=
        ends.lineage.find_of_mem (List.getElem_mem inside)
      rw [(scheduled here).2, height, Int.toNat_natCast]
    rw [List.pairwise_iff_getElem]
    intro i j iInside jInside lower
    rw [along i iInside, along j jInside]
    exact scheduledSupply_mono lower.le
  · rw [supplyEq]
    omega
  · intro below
    have height : entry.record.height = (entry.record.height.toNat : Int) := by omega
    rw [supplyEq, height, Int.toNat_natCast, blockSubsidy_scheduled (by omega)]

omit [Platform] in
theorem emission_branched : branchedChain.tipEntry.block = transfersBlock ∧
    ∃ path, @EmissionLaw branchedChain branchedChain.activeTipHash branchedChain.tipEntry path :=
  ⟨branchedChain_tip.2.1, @emission trustingPlatform branchedChain branchedChain_reachable _ _
    (tipEntry_stored branchedChain)⟩

end Chain.Reachable

end OurCoin
