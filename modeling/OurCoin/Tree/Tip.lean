import OurCoin.Tree.Extension
import OurCoin.Tree.ForkChoice
import OurCoin.Tree.Reorganization
import OurCoin.Tree.Shared
import OurCoin.Wire.Blocks

/-!
# A block on the tip

What happens when a candidate on the active tip is mined and added to the chain.

* The miner changes the nonce only, and what it returns meets its target
  (`mineBlock_eq_ok`).
* The active tip has no stored child, because a child would have more work
  (`Chain.Reachable.tip_childless`). So a mined block is new, or its header collides with a
  stored one under SHA-256 (`Chain.Reachable.mined_accepted`).
* The new block takes over without a reorganization, and confirms its transactions and
  nothing else (`Chain.Reachable.takes_over`).
-/

set_option autoImplicit false

namespace OurCoin

open Raising

variable [Platform]

/-! ## Mining -/

/-- A block that was found is the given one with another nonce, and meets its target. -/
structure Mined (block found : Block) : Prop where
  exists_nonce : ∃ nonce, 0 ≤ nonce ∧ nonce ≤ u64Max ∧ found = block.withNonce nonce
  meets : ∃ hash, found.blockHash = .ok hash ∧
    hashMeetsTarget hash found.header.difficultyTarget = true

theorem mineLoop_eq_ok {block found : Block} : ∀ {attempts : Nat} {nonce : Int}, 0 ≤ nonce →
    mineLoop block attempts nonce = .ok found → Mined block found
  | 0, nonce, _, run => by cases run
  | attempts + 1, nonce, nonneg, run => by
      rw [mineLoop] at run
      split at run
      · cases run
      · rename_i inside
        rw [bind_eq_ok] at run
        obtain ⟨hash, hashOk, run⟩ := run
        split at run
        · rename_i met
          rw [pure_eq_ok] at run
          subst run
          exact ⟨⟨nonce, nonneg, by omega, rfl⟩, hash, hashOk, met⟩
        · exact mineLoop_eq_ok (by omega) run

theorem mineBlock_eq_ok {block found : Block} {maxAttempts : Int} (nonneg : 0 ≤ block.header.nonce)
    (run : mineBlock block maxAttempts = .ok found) : Mined block found := by
  simp only [mineBlock, bind_eq_ok, raiseIf_eq_ok, exists_const] at run
  exact mineLoop_eq_ok nonneg run.2

namespace Chain

variable {chain grown : Chain}

/-! ## The tip -/

/-- The branch of an entry extends the branch of its parent by its block. -/
theorem BranchTo.extends_parent {hash parentHash : Bytes} {entry parent : ChainEntry}
    {front : List (Bytes × ChainEntry)} {branch earlier : BranchState}
    (ends : chain.BranchTo hash entry (front ++ [(hash, entry)]) branch)
    (parentEnds : chain.BranchTo parentHash parent front earlier) :
    earlier.Extends testnet entry.block branch := by
  have whole := replay_eq_ok.mpr ends.replays
  rw [pathBlocks_append] at whole
  obtain ⟨before, beforeOk, step⟩ := (replay_concat_eq_ok parentEnds.replays.ne_nil).mp whole
  cases (replay_eq_ok.mp beforeOk).unique parentEnds.replays
  exact BranchState.extend_eq_ok.mp step

/-- **The active tip has no stored child**, because a child would have more work. -/
theorem Reachable.tip_childless (reachable : chain.Reachable) {hash : Bytes} {entry : ChainEntry}
    (stored : chain.entries.get? hash = some entry) :
    entry.record.parentHash ≠ some chain.activeTipHash := by
  intro onTip
  have refines := reachable.refines
  obtain ⟨accepted, run⟩ := reachable.exists_run
  obtain ⟨path, branch, ends⟩ := refines.exists_branch stored
  rcases ends.exists_parent refines with ⟨-, root⟩ | ⟨front, parent, earlier, rfl, named, parentEnds⟩
  · rw [root] at onTip
    cases onTip
  · rw [named] at onTip
    have isTip := Option.some.inj onTip
    rw [isTip] at parentEnds
    obtain ⟨work, workOk, workEq⟩ := (ends.extends_parent parentEnds).exists_work
    have positive := workForTarget_pos workOk
    have heaviest : itemWork (hash, entry) ≤ itemWork (chain.activeTipHash, chain.tipEntry) :=
      run.tip_firstMax.le (Dict.get?_eq_some.mp stored)
    simp only [itemWork] at heaviest
    rw [ends.work_eq, tipEntry_eq parentEnds.stored, parentEnds.work_eq, workEq] at heaviest
    omega

/-- A block at the height after the tip that names the tip as its parent is not stored. -/
theorem Reachable.not_on_tip (reachable : chain.Reachable) {hash : Bytes} {entry : ChainEntry}
    (stored : chain.entries.get? hash = some entry)
    (onTip : entry.block.header.previousBlockHash = chain.activeTipHash)
    (height : entry.block.header.height = chain.height + 1) : False := by
  have refines := reachable.refines
  obtain ⟨path, branch, ends⟩ := refines.exists_branch stored
  have tipHeight := (refines.header_height chain.tipEntry_stored).2
  rcases ends.exists_parent refines with ⟨rfl, -⟩ | ⟨front, parent, earlier, -, named, -⟩
  · have isGenesis := ends.length_eq
    rw [← (refines.header_height stored).1, height, Chain.height] at isGenesis
    simp only [List.length_singleton] at isGenesis
    omega
  · rw [onTip] at named
    exact reachable.tip_childless stored named

/-- The header of a block collides with the header of a stored one: different bytes with one
hash. -/
def HeaderCollides (chain : Chain) (block : Block) : Prop :=
  ∃ hash entry bytes bytes', chain.entries.get? hash = some entry ∧
    entry.block.header.toBytes = .ok bytes ∧ block.header.toBytes = .ok bytes' ∧
    bytes ≠ bytes' ∧ sha256Digest bytes = sha256Digest bytes'

/-- A candidate on the tip names the tip, and contains what it was built from. -/
theorem Refines.candidate_on_tip (refines : chain.Refines) {miner : Text}
    {transactions : List Transaction} {timestamp : Int} {candidate : Block}
    (made : chain.buildCandidate miner transactions timestamp none = .ok candidate) :
    candidate.header.previousBlockHash = chain.activeTipHash ∧
      candidate.header.height = chain.height + 1 ∧ candidate.header.minerAddress = miner ∧
      candidate.header.timestamp = timestamp ∧ candidate.header.Readable ∧
      0 ≤ candidate.header.nonce ∧ candidate.transactions = transactions := by
  simp only [buildCandidate, bind_eq_ok, rethrow_eq_ok, entryOf_eq_ok, Option.getD_none,
    buildBlockCandidate_eq_ok, chain.tipEntry_stored, Option.some.injEq, exists_eq_left'] at made
  obtain ⟨state, stateOk, target, -, candidateOk⟩ := made
  obtain ⟨state', stateOk', -, network, -⟩ := refines.exists_parent_state chain.tipEntry_stored
  rw [stateOk] at stateOk'
  cases stateOk'
  obtain ⟨reward, after, previous, root, stateRoot, -, previousOk, -, -, rfl⟩ := candidateOk.built
  rw [refines.blockHash_ok chain.tipEntry_stored] at previousOk
  cases previousOk
  have height := (refines.header_height chain.tipEntry_stored).1
  exact ⟨rfl, by rw [Chain.height, ← height], rfl, rfl,
    ⟨network ▸ .chainId, .address (network ▸ candidateOk.miner_valid)⟩, le_rfl, rfl⟩

/-- **A mined block is accepted**, or its header collides with a stored one. -/
theorem Reachable.mined_accepted (reachable : chain.Reachable) {miner : Text}
    {transactions : List Transaction} {timestamp : Int} {candidate block : Block}
    (made : chain.buildCandidate miner transactions timestamp none = .ok candidate)
    (mined : Mined candidate block) :
    chain.HeaderCollides block ∨
      (∀ hash, block.blockHash = .ok hash → chain.contains hash = false) ∧
      block.header.previousBlockHash = chain.activeTipHash ∧ block.transactions = transactions ∧
      ∃ update grown, chain.addBlock block = (.ok update, grown) := by
  have refines := reachable.refines
  obtain ⟨onTip, height, minerEq, timestampEq, readable, -, transactionsEq⟩ :=
    refines.candidate_on_tip made
  obtain ⟨nonce, nonneg, small, rfl⟩ := mined.exists_nonce
  have readable : (candidate.withNonce nonce).header.Readable := ⟨readable.chainId, readable.miner⟩
  obtain ⟨hash, hashOk, met⟩ := mined.meets
  by_cases stored : chain.contains hash = true
  · left
    obtain ⟨entry, found⟩ := contains_eq_true.mp stored
    have entryHash := refines.blockHash_ok found
    simp only [Block.blockHash, BlockHeader.blockHash, bind_eq_ok, pure_eq_ok] at hashOk entryHash
    obtain ⟨bytes', bytesOk', rfl⟩ := hashOk
    obtain ⟨bytes, bytesOk, same⟩ := entryHash
    refine ⟨_, entry, bytes, bytes', found, bytesOk, bytesOk', ?_, same⟩
    -- With the same bytes it would be a stored child of the tip.
    rintro rfl
    have headerEq : (candidate.withNonce nonce).header = entry.block.header := by
      have read := BlockHeader.fromBytes_toBytes readable bytesOk'
      rw [BlockHeader.fromBytes_toBytes (refines.wellMade found).header_readable bytesOk] at read
      exact (Except.ok.inj read).symm
    apply reachable.not_on_tip found
    · rw [← headerEq]
      exact onTip
    · rw [← headerEq]
      exact height
  · right
    have fresh : ∀ hash', (candidate.withNonce nonce).blockHash = .ok hash' →
        chain.contains hash' = false := by
      intro hash' hashOk'
      rw [hashOk] at hashOk'
      cases hashOk'
      simpa using stored
    refine ⟨fresh, onTip, transactionsEq, ?_⟩
    have known : chain.contains (candidate.withNonce nonce).header.previousBlockHash = true := by
      rw [show (candidate.withNonce nonce).header.previousBlockHash = chain.activeTipHash from onTip]
      exact contains_eq_true.mpr ⟨_, chain.tipEntry_stored⟩
    obtain ⟨update, outcome⟩ := (reachable.builder_agrees known fresh).mpr ⟨candidate, by
      rw [show (candidate.withNonce nonce).header.previousBlockHash = chain.activeTipHash from onTip,
        show (candidate.withNonce nonce).header.minerAddress = miner from minerEq,
        show (candidate.withNonce nonce).header.timestamp = timestamp from timestampEq,
        show (candidate.withNonce nonce).transactions = transactions from transactionsEq]
      exact made, rfl, ⟨nonneg, small⟩, hash, hashOk, met⟩
    exact ⟨update, _, Prod.ext outcome rfl⟩

/-! ## The switch -/

/-- The block becomes the tip without a reorganization, and its transactions are what is newly
confirmed. -/
structure TakesOver (chain grown : Chain) (block : Block) (update : ChainUpdate) : Prop where
  becameActive : update.becameActive = true
  reorganized : update.reorganized = false
  tip_eq : block.blockHash = .ok grown.activeTipHash
  confirmed : ∃ before after ids, chain.state = .ok before ∧ grown.state = .ok after ∧
    block.transactions.mapM Transaction.txid = .ok ids ∧ ids.Nodup ∧
    (∀ id ∈ ids, id ∉ before.confirmedTxids) ∧
    after.confirmedTxids = before.confirmedTxids ∪ ids.toFinset

/-- The branch to a new block on the tip is the branch to the tip and the block. -/
theorem Reachable.exists_grown_branch (reachable : chain.Reachable) {block : Block}
    {update : ChainUpdate} (onTip : block.header.previousBlockHash = chain.activeTipHash)
    (added : chain.addBlock block = (.ok update, grown)) :
    update.becameActive = true ∧ block.blockHash = .ok grown.activeTipHash ∧
      ∃ path branch branch', chain.BranchTo chain.activeTipHash chain.tipEntry path branch ∧
        grown.BranchTo grown.activeTipHash grown.tipEntry
          (path ++ [(grown.activeTipHash, grown.tipEntry)]) branch' ∧
        branch.Extends testnet block branch' := by
  have refines := reachable.refines
  have refines' : grown.Refines := by
    have after := refines.addBlock block
    rwa [added] at after
  have grows : chain.Grows grown := by
    have after := (refines.addBlock_grows block).1
    rwa [added] at after
  obtain ⟨entry, newOk, items, blockEq, active, tipHash⟩ :=
    refines.addBlock_ok (congrArg Prod.fst added)
  rw [added] at items tipHash
  have becameActive := active.mpr (refines.heavier_of_extends_tip newOk onTip)
  simp only [becameActive, if_true] at tipHash
  obtain ⟨hash, parent, path, branch, next, hashOk, -, parentEnds, -, rfl⟩ :=
    refines.newEntry_eq_ok.mp newOk
  rw [onTip] at parentEnds
  rw [← tipEntry_eq parentEnds.stored] at parentEnds
  have tipIs : grown.entries.get? grown.activeTipHash =
      some (next.entry hash (some block.header.previousBlockHash)) := by
    rw [tipHash, Dict.get?_eq_some, items]
    exact List.mem_append_right _ (List.mem_singleton_self _)
  have tipEntryEq := tipEntry_eq tipIs
  obtain ⟨path', branch', ends⟩ := refines'.exists_branch grown.tipEntry_stored
  have tipBlock : grown.tipEntry.block = block := by rw [tipEntryEq, blockEq]
  have parentEnds' := parentEnds.mono grows
  rcases ends.exists_parent refines' with ⟨-, root⟩ | ⟨front, parent', earlier, rfl, -, earlierEnds⟩
  · rw [tipEntryEq] at root
    cases root
  · rw [tipBlock, onTip] at earlierEnds
    cases parentEnds'.lineage.unique earlierEnds.lineage
    refine ⟨becameActive, by rw [hashOk, tipHash]; rfl, _, branch, branch', parentEnds, ends, ?_⟩
    rw [← tipBlock]
    exact ends.extends_parent parentEnds'

/-- **A block on the tip takes over.** -/
theorem Reachable.takes_over (reachable : chain.Reachable) {block : Block} {update : ChainUpdate}
    (onTip : block.header.previousBlockHash = chain.activeTipHash)
    (added : chain.addBlock block = (.ok update, grown)) : chain.TakesOver grown block update := by
  have refines := reachable.refines
  have refines' : grown.Refines := by
    have after := refines.addBlock block
    rwa [added] at after
  obtain ⟨becameActive, tipEq, path, branch, branch', ends, ends', extended⟩ :=
    reachable.exists_grown_branch onTip added
  refine ⟨becameActive, ?_, tipEq, ?_⟩
  · obtain ⟨old, new, switch⟩ := reachable.records_switch added
    have oldEq : old = path.map Prod.fst :=
      Except.ok.inj (switch.old_ok.symm.trans (activeHashes_eq refines ends.lineage))
    have newEq := Except.ok.inj (switch.new_ok.symm.trans (activeHashes_eq refines' ends'.lineage))
    rw [List.map_append, ← oldEq] at newEq
    have moved : chain.activeTipHash ≠ grown.activeTipHash := by
      intro same
      have grows := (refines.addBlock_grows block).1
      rw [added] at grows
      have whole := (same ▸ ends.mono grows).lineage.unique ends'.lineage
      simpa using congrArg List.length whole
    obtain ⟨kept, switches⟩ := switch.switched moved
    have short := (switches.longest old (List.prefix_refl old)
      (newEq ▸ List.prefix_append old _)).length_le
    have lengths := congrArg List.length switches.old_eq
    rw [List.length_append, List.length_reverse] at lengths
    have noneLeft : update.disconnected = [] := List.length_eq_zero_iff.mp (by omega)
    rw [Bool.eq_false_iff]
    intro reorganized
    exact switch.reorganized_iff.mp reorganized noneLeft
  · obtain ⟨_, _, before, endsBefore, beforeOk, sameBefore, -⟩ := refines.exists_state
    obtain ⟨rfl, rfl⟩ := ends.unique endsBefore
    obtain ⟨_, _, after, endsAfter, afterOk, sameAfter, -⟩ := refines'.exists_state
    obtain ⟨-, rfl⟩ := ends'.unique endsAfter
    obtain ⟨target, execution, -, valid, stateEq, -⟩ := extended.exists_valid
    obtain ⟨paid, batch, -, rewarded⟩ := valid.batch
    obtain ⟨ids, idsOk, nodup, fresh, union⟩ := batch.txids
    refine ⟨before, after, ids, beforeOk, afterOk, idsOk, nodup, ?_, ?_⟩
    · rw [sameBefore.confirmedTxids_eq]
      exact fresh
    · rw [sameAfter.confirmedTxids_eq, sameBefore.confirmedTxids_eq, stateEq,
        rewarded.confirmedTxids_eq, union]

end Chain

end OurCoin
