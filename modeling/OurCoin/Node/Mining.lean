import OurCoin.Node.Selection
import OurCoin.Storage.Completion
import OurCoin.Storage.Restart
import OurCoin.Tree.Tip

/-!
# Mining on a node

What `mine` selects always makes a candidate on the tip (`LocalNode.Invariant.exists_candidate`),
and a block that it finds is never known already, so that `submit_block` accepts it and switches
to it (`LocalNode.Reachable.mining_accepted`), with two exceptions that no rule of the node can
remove: its header may collide under SHA-256 with a stored one, and the database of a persistent
node may refuse the write, which then changes nothing. A closed database always does
(`LocalNode.closed_refuses_mined`).
-/

set_option autoImplicit false

namespace OurCoin

open Raising Transactions

variable [Platform]

namespace LocalNode

variable {node : LocalNode}

/-! ## Building on the tip -/

/-- **What is selected makes a candidate on the tip.** -/
theorem Invariant.exists_candidate (inv : node.Invariant) (left : node.chain.height < u64Max)
    {miner : Text} (minerValid : ∃ key, decodeAddress miner testnet = .ok key) {timestamp : Int}
    (later : node.chain.tip.header.timestamp < timestamp) (small : timestamp ≤ u64Max)
    {maxTransactions : Int}
    (range : 0 ≤ maxTransactions ∧ maxTransactions ≤ maxBlockTransactions) :
    ∃ state selected candidate, node.chain.state = .ok state ∧
      node.mempool.select state (node.chain.height + 1) maxTransactions = .ok selected ∧
      node.chain.buildCandidate miner selected timestamp none = .ok candidate ∧
      ∀ maxAttempts, node.mineCandidate miner (some timestamp) maxTransactions maxAttempts =
        mineBlock candidate maxAttempts := by
  have refines := inv.chain_reachable.refines
  obtain ⟨state, stateOk, sound⟩ := inv.pool_sound
  obtain ⟨state', restored, wellFormed, -, total, supplyRange⟩ :=
    refines.exists_parent_state node.chain.tipEntry_stored
  have same : state' = state := Except.ok.inj (restored.symm.trans stateOk)
  subst same
  have maxFits : maxSupplyAtoms ≤ u64Max := by decide
  obtain ⟨selected, paid, selectOk, batch, few, -⟩ :=
    sound.exists_selection wellFormed (by omega) range.1
  obtain ⟨path, branch, ends⟩ := refines.exists_branch node.chain.tipEntry_stored
  have tipTimestamp : 0 ≤ node.chain.tip.header.timestamp := by
    have tipHash := refines.blockHash_ok node.chain.tipEntry_stored
    exact (BlockHeader.exists_blockHash.mp ⟨_, tipHash⟩).timestamp_range.1
  rw [← refines.network_eq] at minerValid
  obtain ⟨target, candidate, -, made, -⟩ := refines.exists_candidate node.chain.tipEntry_stored left
    minerValid later ⟨by omega, small⟩ (by omega) restored batch
  have onTip : node.chain.buildCandidate miner selected timestamp none = .ok candidate := made
  refine ⟨state', selected, candidate, stateOk, selectOk, onTip, ?_⟩
  intro maxAttempts
  have counted : raiseIf (¬ (0 ≤ maxTransactions ∧ maxTransactions ≤ maxBlockTransactions))
      (nodeError "block transaction limit is outside the allowed range") = .ok () :=
    raiseIf_eq_ok.mpr (not_not.mpr range)
  rw [mineCandidate, counted, ok_bind, stateOk, ok_bind, selectOk, ok_bind]
  dsimp only [Option.getD_some]
  rw [onTip, ok_bind]

/-! ## Submitting what was found -/

omit [Platform] in
/-- Adding a block that was accepted changes the chain. -/
theorem ne_of_items {chain grown : Chain} {item : Bytes × ChainEntry}
    (items : grown.entries.items = chain.entries.items ++ [item]) : chain ≠ grown := by
  rintro rfl
  simpa using congrArg List.length items

theorem finishSubmit_chain (node : LocalNode) (update : ChainUpdate) :
    (finishSubmit node update).2.chain = node.chain := by
  rw [finishSubmit]
  split
  · rfl
  · split <;> rfl

/-- A block that the chain accepts is accepted by the node, or its database refuses it and
nothing changes. -/
theorem Invariant.submitBlock_of_added (inv : node.Invariant) {block : Block} {update : ChainUpdate}
    {grown : Chain} (added : node.chain.addBlock block = (.ok update, grown)) (faults : List Fault) :
    (∃ after, node.submitBlock block faults = (.ok update, after) ∧ after.chain = grown) ∨
    ∃ storage e, node.storage = some storage ∧
      (storage.persistChainUpdate grown update faults).1 = .error e ∧
      node.submitBlock block faults = (.error e, node) := by
  have refines := inv.chain_reachable.refines
  obtain ⟨_, -, items, -⟩ := refines.addBlock_ok (congrArg Prod.fst added)
  rw [added] at items
  -- Once the chain was switched, nothing can raise: it would leave the old chain.
  have finishes : ∀ {storage : Option SQLiteChainStorage},
      node.submitBlock block faults = finishSubmit ⟨grown, node.mempool, storage⟩ update →
        ∃ after, node.submitBlock block faults = (.ok update, after) ∧ after.chain = grown := by
    intro storage finish
    cases outcome : node.submitBlock block faults with
    | mk result after =>
        have chainEq := finishSubmit_chain ⟨grown, node.mempool, storage⟩ update
        rw [← finish, outcome] at chainEq
        dsimp only at chainEq
        cases result with
        | error e =>
            have same := inv.submitBlock_error (congrArg Prod.fst outcome)
            rw [outcome] at same
            exact absurd (congrArg LocalNode.chain same.symm |>.trans chainEq) (ne_of_items items)
        | ok update' =>
            have again := inv.submitBlock_ok outcome
            rw [added] at again
            cases again
            exact ⟨after, rfl, rfl⟩
  cases stored : node.storage with
  | none =>
      apply Or.inl
      apply @finishes none
      rw [LocalNode.submitBlock, stored]
      dsimp only
      rw [added]
  | some storage =>
      cases outcome : storage.persistChainUpdate grown update faults with
      | mk result after =>
          cases result with
          | error e =>
              right
              refine ⟨storage, e, rfl, by rw [outcome], ?_⟩
              have raised : (node.submitBlock block faults).1 = .error e := by
                rw [LocalNode.submitBlock, stored]
                dsimp only
                rw [Chain.copy_eq refines.network_eq]
                dsimp only
                rw [added]
                dsimp only
                rw [outcome]
              exact Prod.ext raised (inv.submitBlock_error raised)
          | ok inserted =>
              apply Or.inl
              apply @finishes (some after)
              rw [LocalNode.submitBlock, stored]
              dsimp only
              rw [Chain.copy_eq refines.network_eq]
              dsimp only
              rw [added]
              dsimp only
              rw [outcome]

/-- The database of a node that created it, and did not close it, refuses nothing. -/
theorem Persisted.exists_submitBlock {accepted : List Block} (persisted : Persisted accepted node)
    {block : Block} {update : ChainUpdate} {grown : Chain}
    (added : node.chain.addBlock block = (.ok update, grown)) :
    ∃ after, node.submitBlock block [] = (.ok update, after) ∧ after.chain = grown := by
  obtain ⟨data, opened, represents⟩ := persisted.exists_tables
  obtain ⟨inserted, data', returned, -⟩ := represents.exists_persist persisted.run.reachable added
  rcases persisted.invariant.submitBlock_of_added added [] with accepted | ⟨storage, e, stored, raised, -⟩
  · exact accepted
  · rw [opened] at stored
    cases stored
    rw [returned] at raised
    cases raised

/-! ## Mining -/

/-- What becomes of a block that was found with given transactions on the tip of a node. -/
structure TakenOver (node : LocalNode) (selected : List Transaction) (block : Block) : Prop where
  transactions_eq : block.transactions = selected
  unknown : ∀ hash, block.blockHash = .ok hash → node.chain.contains hash = false
  exists_update : ∃ update grown, node.chain.addBlock block = (.ok update, grown) ∧
    node.chain.TakesOver grown block update ∧
    (∀ faults, (∃ after, node.submitBlock block faults = (.ok update, after) ∧ after.chain = grown) ∨
      ∃ storage e, node.storage = some storage ∧
        (storage.persistChainUpdate grown update faults).1 = .error e ∧
        node.submitBlock block faults = (.error e, node)) ∧
    ((∃ accepted, PersistentRun accepted node) →
      ∃ after, node.submitBlock block [] = (.ok update, after) ∧ after.chain = grown)

theorem Invariant.takenOver (inv : node.Invariant) {miner : Text} {selected : List Transaction}
    {timestamp maxAttempts : Int} {candidate block : Block}
    (made : node.chain.buildCandidate miner selected timestamp none = .ok candidate)
    (found : mineBlock candidate maxAttempts = .ok block) :
    node.chain.HeaderCollides block ∨ node.TakenOver selected block := by
  have nonce := inv.chain_reachable.refines.candidate_on_tip made
  have mined := mineBlock_eq_ok nonce.2.2.2.2.2.1 found
  rcases inv.chain_reachable.mined_accepted made mined with collides |
    ⟨unknown, onTip, transactionsEq, update, grown, added⟩
  · exact .inl collides
  · right
    refine ⟨transactionsEq, unknown, update, grown, added,
      inv.chain_reachable.takes_over onTip added, inv.submitBlock_of_added added, ?_⟩
    rintro ⟨accepted, run⟩
    exact run.persisted.exists_submitBlock added

/-- **Mining yields an accepted tip.** What is selected makes a candidate, and a block that is
found for it takes over, unless its header collides with that of a stored block, or the database
of the node refuses it. -/
theorem Reachable.mining_accepted (reachable : node.Reachable) (left : node.chain.height < 2 ^ 64 - 1)
    {miner : Text} (minerValid : ∃ key, decodeAddress miner testnet = .ok key) {timestamp : Int}
    (later : node.chain.tip.header.timestamp < timestamp) (small : timestamp ≤ 2 ^ 64 - 1)
    {maxTransactions : Int} (range : 0 ≤ maxTransactions ∧ maxTransactions ≤ 10000) :
    ∃ state selected candidate, node.chain.state = .ok state ∧
      node.mempool.select state (node.chain.height + 1) maxTransactions = .ok selected ∧
      node.chain.buildCandidate miner selected timestamp none = .ok candidate ∧
      ∀ maxAttempts,
        node.mineCandidate miner (some timestamp) maxTransactions maxAttempts =
          mineBlock candidate maxAttempts ∧
        ∀ block, mineBlock candidate maxAttempts = .ok block →
          node.chain.HeaderCollides block ∨ node.TakenOver selected block := by
  have inv := reachable.invariant
  obtain ⟨state, selected, candidate, stateOk, selectOk, made, mines⟩ :=
    inv.exists_candidate left minerValid later small range
  refine ⟨state, selected, candidate, stateOk, selectOk, made, fun maxAttempts => ⟨mines _, ?_⟩⟩
  intro block found
  exact inv.takenOver made found

omit [Platform] in
/-- The miner of the genesis block has a valid address. -/
theorem genesisMiner_valid : ∃ key, decodeAddress testnetGenesisMinerAddress testnet = .ok key := by
  have decoded : (decodeAddress testnetGenesisMinerAddress testnet).isOk = true := by decide +kernel
  cases outcome : decodeAddress testnetGenesisMinerAddress testnet with
  | ok key => exact ⟨key, rfl⟩
  | error e =>
      rw [outcome] at decoded
      cases decoded

omit [Platform] in
/-- A block can be mined on the genesis block one minute later. -/
theorem genesisChain_minable : genesisChain.height < 2 ^ 64 - 1 ∧
    genesisChain.tip.header.timestamp < testnetGenesisTimestamp + 60 := by
  have tip : genesisChain.tipEntry = genesisEntry := Chain.tipEntry_eq (Dict.get?_set_self _ _ _)
  rw [Chain.height, Chain.tip, tip]
  decide

omit [Platform] in
/-- A transfer is pending, its sender is valid, and a minute has passed since the tip. -/
theorem waitingNode_minable : waitingNode.chain.height < 2 ^ 64 - 1 ∧
    waitingNode.chain.tip.header.timestamp < testnetGenesisTimestamp + 180 ∧
    (do let state ← waitingNode.chain.state
        @Mempool.select trustingPlatform waitingNode.mempool state (waitingNode.chain.height + 1)
          10) = .ok [Payer.secondTransfer] := by
  decide +kernel

omit [Platform] in
theorem waitingNode_mines : (@mineCandidate trustingPlatform waitingNode testnetGenesisMinerAddress
    (some (testnetGenesisTimestamp + 180)) 10 64).isOk = true := by
  decide +kernel

omit [Platform] in
/-- The node mines its pending transfer. -/
theorem mining_accepted_waiting : ∃ state candidate block, waitingNode.chain.state = .ok state ∧
    @Mempool.select trustingPlatform waitingNode.mempool state (waitingNode.chain.height + 1) 10 =
      .ok [Payer.secondTransfer] ∧
    @Chain.buildCandidate trustingPlatform waitingNode.chain testnetGenesisMinerAddress
      [Payer.secondTransfer] (testnetGenesisTimestamp + 180) none = .ok candidate ∧
    @mineCandidate trustingPlatform waitingNode testnetGenesisMinerAddress
      (some (testnetGenesisTimestamp + 180)) 10 64 = .ok block ∧
    (@Chain.HeaderCollides trustingPlatform waitingNode.chain block ∨
      @TakenOver trustingPlatform waitingNode [Payer.secondTransfer] block) := by
  obtain ⟨short, later, selects⟩ := waitingNode_minable
  obtain ⟨state, selected, candidate, stateOk, selectOk, made, mines⟩ :=
    @Reachable.mining_accepted trustingPlatform _ waitingNode_reachable short _ genesisMiner_valid _
      later (by decide) 10 (by decide)
  rw [stateOk, ok_bind, selectOk] at selects
  cases selects
  have found := waitingNode_mines
  cases outcome : @mineCandidate trustingPlatform waitingNode testnetGenesisMinerAddress
      (some (testnetGenesisTimestamp + 180)) 10 64 with
  | error e =>
      rw [outcome] at found
      cases found
  | ok block =>
      obtain ⟨same, accepted⟩ := mines 64
      rw [same] at outcome
      exact ⟨state, candidate, block, stateOk, selectOk, made, rfl, accepted block outcome⟩

set_option maxRecDepth 100000 in
omit [Platform] in
/-- A closed node finds a block on its tip, and refuses it. -/
theorem closed_refuses_mined : ∃ node block e, @Reachable asciiPlatform node ∧
    node.chain.height < 2 ^ 64 - 1 ∧
    (∃ key, decodeAddress testnetGenesisMinerAddress testnet = .ok key) ∧
    node.chain.tip.header.timestamp < testnetGenesisTimestamp + 60 ∧
    @mineCandidate asciiPlatform node testnetGenesisMinerAddress (some (testnetGenesisTimestamp + 60))
      10 20 = .ok block ∧
    (@submitBlock asciiPlatform node block []).1 = .error e := by
  have evaluated : (do
      let storage ← @SQLiteChainStorage.openFresh asciiPlatform testnet
      let node ← @LocalNode.new asciiPlatform testnet (some storage)
      let block ← @mineCandidate asciiPlatform node.close testnetGenesisMinerAddress
        (some (testnetGenesisTimestamp + 60)) 10 20
      return (@submitBlock asciiPlatform node.close block []).1.isOk).toOption = some false := by
    decide +kernel
  obtain ⟨data, opened, represents⟩ := @exists_openFresh asciiPlatform
  have run := @Chain.Run.init asciiPlatform _ (@Chain.init_testnet asciiPlatform)
  have created := (@reopen_eq asciiPlatform [] _ _ run represents).2
  have reachable := @Reachable.close asciiPlatform _ (@Reachable.persistent asciiPlatform _ _ rfl created)
  rw [opened, ok_bind, created, ok_bind] at evaluated
  cases found : @mineCandidate asciiPlatform (close ⟨genesisChain, Mempool.empty,
      some (.onTables data)⟩) testnetGenesisMinerAddress (some (testnetGenesisTimestamp + 60)) 10 20 with
  | error e =>
      rw [found] at evaluated
      cases evaluated
  | ok block =>
      rw [found, ok_bind] at evaluated
      cases outcome : (@submitBlock asciiPlatform (close ⟨genesisChain, Mempool.empty,
          some (.onTables data)⟩) block []).1 with
      | ok update =>
          rw [outcome] at evaluated
          cases evaluated
      | error e =>
          exact ⟨_, block, e, reachable, genesisChain_minable.1, genesisMiner_valid,
            genesisChain_minable.2, found, outcome⟩

end LocalNode

end OurCoin
