import OurCoin.Storage.Completion
import OurCoin.Storage.Loading
import OurCoin.Tree.Shared

/-!
# Persisting from a stale chain

A node calls `persist_chain_update` with a chain that the database may have outgrown: every
entry of its chain is stored (`Chain.Grows`), but other nodes have stored more.

* When the node has the tip of the database, it lacks at most side branches
  (`Chain.Behind`). Adding its block to the chain of the database succeeds with the same
  entry (`Chain.Behind.addBlock`), and its call is the one that an up-to-date node would make
  (`persistChainUpdate_eq`).
* When the block is stored already, the call compares it with the stored one
  (`Represents.commits_persistBody_stored`).
* Otherwise the tip has changed, and the call raises (`Represents.commits_persistBody_moved`).

`Represents.callOutcome` joins this.
-/

set_option autoImplicit false

namespace OurCoin

open Raising Transactions

variable [Platform]

namespace Chain

variable {own chain : Chain}

/-- The chain of a node has the tip of another one, and lacks at most entries beside it. -/
structure Behind (own chain : Chain) : Prop where
  grows : own.Grows chain
  tip_eq : own.activeTipHash = chain.activeTipHash

namespace Behind

omit [Platform] in
theorem tipEntry_eq (behind : own.Behind chain) : chain.tipEntry = own.tipEntry := by
  apply Chain.tipEntry_eq
  rw [← behind.tip_eq]
  exact behind.grows _ _ own.tipEntry_stored

/-- The active chain is that of the tip. -/
theorem activeChain_eq (behind : own.Behind chain) (refines : own.Refines) :
    own.activeChain = chain.activeChain := by
  obtain ⟨path, branch, ends⟩ := refines.exists_branch own.tipEntry_stored
  have ends' := ends.mono behind.grows
  rw [behind.tip_eq, ← behind.tipEntry_eq] at ends'
  rw [Reachable.activeChain_eq ends, Reachable.activeChain_eq ends']

end Behind

/-- **What a chain accepts, a chain that has more entries accepts** with the same entry,
unless it has the block. -/
theorem Grows.newEntry (grows : own.Grows chain) (refines : own.Refines) (refines' : chain.Refines)
    {block : Block} {entry : ChainEntry} (accepted : own.newEntry block = .ok entry)
    (missing : chain.entries.get? entry.record.blockHash = none) :
    chain.newEntry block = .ok entry := by
  obtain ⟨hash, parent, path, branch, next, hashOk, -, ends, extended, rfl⟩ :=
    refines.newEntry_eq_ok.mp accepted
  exact refines'.newEntry_eq_ok.mpr ⟨hash, parent, path, branch, next, hashOk, missing,
    ends.mono grows, extended, rfl⟩

omit [Platform] in
/-- Chains that store one more entry. -/
theorem Grows.concat (grows : own.Grows chain) {ownGrown grown : Chain}
    {item : Bytes × ChainEntry} (items : ownGrown.entries.items = own.entries.items ++ [item])
    (items' : grown.entries.items = chain.entries.items ++ [item]) : ownGrown.Grows grown := by
  intro hash entry stored
  have member := Dict.get?_eq_some.mp stored
  rw [items, List.mem_append] at member
  apply Dict.get?_eq_some.mpr
  rw [items', List.mem_append]
  rcases member with earlier | added
  · exact .inl (Dict.get?_eq_some.mp (grows hash entry (Dict.get?_eq_some.mpr earlier)))
  · exact .inr added

/-- **Adding a block to a chain that lacks side branches** does what adding it to the whole
chain does. -/
theorem Behind.addBlock (behind : own.Behind chain) (refines : own.Refines)
    (refines' : chain.Refines) {block : Block} {update : ChainUpdate} {ownGrown : Chain}
    (added : own.addBlock block = (.ok update, ownGrown))
    (missing : chain.entries.get? update.addedBlockHash = none) :
    ∃ update' grown, chain.addBlock block = (.ok update', grown) ∧
      update'.addedBlockHash = update.addedBlockHash ∧
      update'.becameActive = update.becameActive ∧ ownGrown.Behind grown := by
  obtain ⟨entry, accepted, -, -, items, hashEq, -, -⟩ := refines.added_entry added
  rw [hashEq] at missing
  have accepted' := behind.grows.newEntry refines refines' accepted missing
  have sameWork : own.cumulativeWork = chain.cumulativeWork := by
    rw [cumulativeWork, cumulativeWork, behind.tipEntry_eq]
  have concat : ∀ {grown : Chain}, grown.entries = chain.entries.set entry.record.blockHash entry →
      ownGrown.Grows grown := by
    intro grown entriesEq
    apply behind.grows.concat items
    rw [entriesEq, Dict.set_items_of_fresh missing]
  rcases refines.addBlock_cases block with ⟨e, -, run⟩ | ⟨entry', newOk, light, run⟩ |
    ⟨entry', _, _, _, _, newOk, heavy, -, run⟩
  · rw [added] at run
    cases run
  · rw [added] at run
    rw [accepted, Except.ok.injEq] at newOk
    subst newOk
    cases run
    rcases refines'.addBlock_cases block with ⟨e, refused, -⟩ | ⟨entry', newOk, -, run'⟩ |
      ⟨entry', _, _, _, _, newOk, heavy', -, -⟩
    · rw [accepted'] at refused
      cases refused
    · rw [accepted', Except.ok.injEq] at newOk
      subst newOk
      exact ⟨_, _, run', rfl, rfl, concat rfl, behind.tip_eq⟩
    · rw [accepted', Except.ok.injEq] at newOk
      subst newOk
      omega
  · rw [added] at run
    rw [accepted, Except.ok.injEq] at newOk
    subst newOk
    cases run
    rcases refines'.addBlock_cases block with ⟨e, refused, -⟩ | ⟨entry', newOk, light', -⟩ |
      ⟨entry', _, _, _, _, newOk, -, -, run'⟩
    · rw [accepted'] at refused
      cases refused
    · rw [accepted', Except.ok.injEq] at newOk
      subst newOk
      omega
    · rw [accepted', Except.ok.injEq] at newOk
      subst newOk
      exact ⟨_, _, run', rfl, rfl, concat rfl, rfl⟩

end Chain

/-! ## The same call -/

/-- What the statements of `persist_chain_update` read of the supplied chain. -/
structure SameSupplied (first second : Chain) (blockHash : Bytes) : Prop where
  network_eq : first.network = second.network
  block_eq : first.getBlock blockHash = second.getBlock blockHash
  record_eq : first.getRecord blockHash = second.getRecord blockHash
  contains_eq : first.contains blockHash = second.contains blockHash
  activeChain_eq : first.activeChain = second.activeChain
  state_eq : first.state = second.state
  supply_eq : first.totalSupplyAtoms = second.totalSupplyAtoms
  tip_eq : first.activeTipHash = second.activeTipHash

/-- A chain that lacks side branches supplies the same. -/
theorem Chain.Behind.sameSupplied {own chain : Chain} (behind : own.Behind chain)
    (refines : own.Refines) (refines' : chain.Refines) {blockHash : Bytes} {entry : ChainEntry}
    (stored : own.entries.get? blockHash = some entry) : SameSupplied own chain blockHash := by
  have stored' := behind.grows _ _ stored
  have known : own.contains blockHash = true := Chain.contains_eq_true.mpr ⟨entry, stored⟩
  have known' : chain.contains blockHash = true := Chain.contains_eq_true.mpr ⟨entry, stored'⟩
  have networks := refines.network_eq.trans refines'.network_eq.symm
  exact {
    network_eq := networks
    block_eq := by
      rw [getBlock, getBlock, entryOf_eq_ok.mpr stored, entryOf_eq_ok.mpr stored']
    record_eq := by
      rw [getRecord, getRecord, entryOf_eq_ok.mpr stored, entryOf_eq_ok.mpr stored']
    contains_eq := known.trans known'.symm
    activeChain_eq := behind.activeChain_eq refines
    state_eq := by rw [state, state, behind.tipEntry_eq, networks]
    supply_eq := by rw [totalSupplyAtoms, totalSupplyAtoms, behind.tipEntry_eq]
    tip_eq := behind.tip_eq }

/-- **Calls that are supplied the same do the same.** -/
theorem persistChainUpdate_eq {storage : SQLiteChainStorage} {first second : Chain}
    {update update' : ChainUpdate} (same : SameSupplied first second update.addedBlockHash)
    (added_eq : update'.addedBlockHash = update.addedBlockHash)
    (active_eq : update'.becameActive = update.becameActive)
    (tip_eq : update'.activeTipHash = update.activeTipHash)
    (previous_eq : SQLiteChainStorage.expectedPreviousTip update' =
      SQLiteChainStorage.expectedPreviousTip update) (faults : List Fault) :
    storage.persistChainUpdate first update faults =
      storage.persistChainUpdate second update' faults := by
  have bodies : storage.persistBody first update = storage.persistBody second update' := by
    simp only [SQLiteChainStorage.persistBody, SQLiteChainStorage.assertStoredBlockMatches,
      insertBlock, replaceDerivedState, added_eq, active_eq, previous_eq, same.block_eq,
      same.record_eq, same.activeChain_eq, same.state_eq, same.supply_eq, same.tip_eq]
  simp only [SQLiteChainStorage.persistChainUpdate, bodies, same.network_eq, same.contains_eq,
    same.tip_eq, added_eq, tip_eq]

/-! ## What the call finds -/

variable {tables : Tables} {chain : Chain}

/-- The block that is stored under a hash is the one of the supplied chain. -/
structure Tables.Matches (tables : Tables) (chain : Chain) (blockHash : Bytes) : Prop where
  exists_row : ∃ row block record, tables.blockRow? blockHash = some row ∧
    decodeBlockRow tables row = .ok block ∧ chain.getBlock blockHash = .ok block ∧
    recordFromRow row = .ok record ∧ chain.getRecord blockHash = .ok record

theorem turns_assertStoredBlockMatches (chain : Chain) (blockHash : Bytes) (before : Tables) :
    Turns before (SQLiteChainStorage.assertStoredBlockMatches chain blockHash) fun _ tables =>
      tables = before ∧ before.Matches chain blockHash := by
  apply Turns.lift_bind
  intro exactHash hashOk
  obtain ⟨-, rfl⟩ := exactBlob_eq_ok.mp hashOk
  refine @Turns.bind _ _ _ (fun found tables => found = before.blockRow? blockHash ∧ tables = before)
    _ _ _ (Turns.query ⟨rfl, rfl⟩) ?_
  rintro _ _ ⟨rfl, rfl⟩
  apply Turns.lift_bind
  intro row rowOk
  apply Turns.lift_bind
  intro heads headsOk
  refine @Turns.bind _ _ _ (fun rows tables => rows = _ ∧ tables = _) _ _ _ (Turns.query ⟨rfl, rfl⟩) ?_
  rintro _ tables ⟨rfl, rfl⟩
  apply Turns.lift
  intro _ matched
  have found : tables.blockRow? blockHash = some row := by
    split at rowOk
    · rename_i stored same
      cases rowOk
      exact same
    · cases rowOk
  simp only [bind_eq_ok, raiseIf_eq_ok, exists_const, not_not] at matched
  obtain ⟨block, bodyOk, _, blockOk, rfl, record, recordOk, _, recordOk', rfl⟩ := matched
  refine ⟨rfl, row, block, record, found, ?_, blockOk, recordOk, recordOk'⟩
  rw [decodeBlockRow, headsOk, ok_bind]
  exact bodyOk

/-- **A block that is stored already** is compared, and nothing is written. -/
theorem Represents.commits_persistBody_stored (represents : Represents tables chain)
    {supplied : Chain} {update : ChainUpdate} {entry : ChainEntry}
    (stored : chain.entries.get? update.addedBlockHash = some entry) (storage : SQLiteChainStorage) :
    Commits tables (storage.persistBody supplied update) fun inserted tables' =>
      inserted = false ∧ tables' = tables ∧ tables.Matches supplied update.addedBlockHash := by
  have held : (tables.blockRow? update.addedBlockHash).isSome = true := by
    obtain ⟨row, member, named⟩ := List.mem_map.mp (represents.hasBlock_iff.mpr ⟨entry, stored⟩)
    rw [Tables.blockRow?, List.find?_isSome]
    exact ⟨row, member, by simpa using named⟩
  apply Commits.bind (turns_metadataRow storage tables)
  rintro metadata _ rfl
  apply Commits.lift_bind
  intro storedTip _
  refine @Commits.bind _ _ _ (fun existing tables' => existing.isSome = true ∧ tables' = _) _ _ _
    (Turns.query ⟨held, rfl⟩) ?_
  rintro existing _ ⟨isStored, rfl⟩
  rw [if_pos isStored]
  apply Commits.bind (turns_assertStoredBlockMatches supplied update.addedBlockHash _)
  rintro _ _ ⟨rfl, matched⟩
  apply Commits.commit
  intro _
  exact ⟨rfl, rfl, matched⟩

/-- **When the tip has changed**, the call of a stale node does not succeed. -/
theorem Represents.commits_persistBody_moved (represents : Represents tables chain)
    {supplied : Chain} {update : ChainUpdate} {previous : Bytes}
    (missing : chain.entries.get? update.addedBlockHash = none)
    (expected : SQLiteChainStorage.expectedPreviousTip update = .ok previous)
    (moved : previous ≠ chain.activeTipHash) (storage : SQLiteChainStorage) :
    Commits tables (storage.persistBody supplied update) fun _ _ => False := by
  have unknown : tables.blockRow? update.addedBlockHash = none :=
    represents.stores.blockRow?_eq_none (Dict.get?_eq_none.mp missing)
  have metadataTip : Turns tables storage.metadataRow fun metadata tables' =>
      metadata.canonicalTipHash = chain.activeTipHash ∧ tables' = tables := by
    apply Turns.lift_bind
    intro _ _
    refine @Turns.bind _ _ _ (fun rows tables' => rows = tables.chainMetadata ∧ tables' = tables) _ _ _
      (Turns.query ⟨rfl, rfl⟩) ?_
    rintro _ _ ⟨rfl, rfl⟩
    apply Turns.lift
    intro row rowOk
    refine ⟨(represents.derives.exists_metadata row ?_).1, rfl⟩
    unfold onlyMetadataRow at rowOk
    split at rowOk
    · rename_i only
      cases rowOk
      rw [only]
      exact List.mem_singleton_self _
    · cases rowOk
  apply Commits.bind metadataTip
  rintro metadata _ ⟨tipEq, rfl⟩
  apply Commits.lift_bind
  intro storedTip tipOk
  obtain ⟨-, rfl⟩ := exactBlob_eq_ok.mp tipOk
  refine @Commits.bind _ _ _ (fun existing tables' => existing = none ∧ tables' = _) _ _ _
    (Turns.query ⟨unknown, rfl⟩) ?_
  rintro _ _ ⟨rfl, rfl⟩
  rw [if_neg (by simp)]
  apply Commits.lift_bind
  intro previous' expected'
  rw [expected, Except.ok.injEq] at expected'
  subst expected'
  apply Commits.lift_bind
  intro _ same
  rw [raiseIf_eq_ok, not_not, tipEq] at same
  exact absurd same.symm moved

/-! ## The outcomes of the call -/

/-- The chain and the update with which a node calls `persist_chain_update`: it has added a
block to a copy of its chain, or it supplies its chain as it is. -/
def Chain.Offers (own : Chain) (update : ChainUpdate) (supplied : Chain) : Prop :=
  supplied = own ∨ ∃ candidate block, own.copy = .ok candidate ∧
    candidate.addBlock block = (.ok update, supplied)

/-- A node whose block is stored already has nothing that the database lacks. -/
theorem Represents.grows_of_matches (represents : Represents tables chain) {own supplied : Chain}
    (refines : chain.Refines) (ownRefines : own.Refines) (grows : own.Grows chain) {block : Block}
    {update : ChainUpdate} (added : own.addBlock block = (.ok update, supplied))
    (matched : tables.Matches supplied update.addedBlockHash) : supplied.Grows chain := by
  have suppliedRefines : supplied.Refines := by
    have after := ownRefines.addBlock block
    rwa [added] at after
  obtain ⟨entry, -, -, stored, items, hashEq, -, -⟩ := ownRefines.added_entry added
  obtain ⟨row, block', record, found, decodedOk, blockOk, -, -⟩ := matched.exists_row
  -- The stored entry has the block of the supplied one.
  have member := List.mem_of_find?_eq_some found
  have named : row.blockHash = update.addedBlockHash := by
    simpa using List.find?_some found
  obtain ⟨item, itemMem, decoded⟩ :=
    exists_of_forall₂ (represents.decoded refines).flip member
  have known : chain.entries.get? update.addedBlockHash = some item.2 := by
    rw [← named, decoded.hash_eq]
    exact Dict.get?_eq_some.mpr itemMem
  rw [hashEq] at known blockOk
  have sameBlock : entry.block = item.2.block := by
    rw [Chain.getBlock, Chain.entryOf_eq_ok.mpr stored] at blockOk
    exact (Except.ok.inj blockOk).trans (Except.ok.inj (decodedOk.symm.trans decoded.block_eq))
  have sameBlocks : ∀ {hash : Bytes} {first second : ChainEntry},
      supplied.entries.get? hash = some first → chain.entries.get? hash = some second →
        first.block = second.block := by
    intro hash first second firstStored secondStored
    have inSupplied := Dict.get?_eq_some.mp firstStored
    rw [items, List.mem_append, List.mem_singleton] at inSupplied
    rcases inSupplied with earlier | isAdded
    · have same := grows hash first (Dict.get?_eq_some.mpr earlier)
      rw [secondStored, Option.some.injEq] at same
      rw [same]
    · cases isAdded
      rw [secondStored, Option.some.injEq] at known
      rw [known, sameBlock]
  -- An entry is determined by the blocks of its branch.
  intro hash first firstStored
  have inSupplied := Dict.get?_eq_some.mp firstStored
  rw [items, List.mem_append, List.mem_singleton] at inSupplied
  rcases inSupplied with earlier | isAdded
  · exact grows hash first (Dict.get?_eq_some.mpr earlier)
  · cases isAdded
    obtain ⟨path, branch, ends⟩ := suppliedRefines.exists_branch firstStored
    obtain ⟨path', branch', ends'⟩ := refines.exists_branch known
    rw [known, ends.entry_eq_of_blocks suppliedRefines refines ends'
      (ends.blocks_eq_of_same suppliedRefines refines sameBlocks ends')]

/-- What a call of `persist_chain_update` by a stale node does to the database. -/
inductive CallOutcome (before : Tables) (chain supplied : Chain) (update : ChainUpdate) :
    Outcome Raised SQLiteChainStorage Bool → Prop
  | raised (e : Raised) : CallOutcome before chain supplied update (.error e, .onTables before)
  | found : before.Matches supplied update.addedBlockHash → supplied.Grows chain →
      CallOutcome before chain supplied update (.ok false, .onTables before)
  | inserted {after : Tables} {grown : Chain} {block : Block} {update' : ChainUpdate} :
      chain.addBlock block = (.ok update', grown) → Represents after grown →
      before.Appends after update.addedBlockHash →
      supplied.contains update.addedBlockHash = true → supplied.Grows grown →
      CallOutcome before chain supplied update (.ok true, .onTables after)

/-- A call for a block that the supplied chain does not store raises. -/
theorem persistChainUpdate_unknown (storage : SQLiteChainStorage) {supplied : Chain}
    {update : ChainUpdate} (unknown : ¬ supplied.contains update.addedBlockHash = true)
    (faults : List Fault) :
    ∃ e, storage.persistChainUpdate supplied update faults = (.error e, storage) := by
  unfold SQLiteChainStorage.persistChainUpdate
  dsimp only
  split
  · exact ⟨_, rfl⟩
  · rename_i checked
    simp only [bind_eq_ok, raiseIf_eq_ok, exists_const, not_not] at checked
    obtain ⟨-, -, -, known, -⟩ := checked
    exact absurd known unknown

/-- **A call by a stale node** raises, finds its block stored, or does what the call of an
up-to-date node would do. -/
theorem Represents.callOutcome (represents : Represents tables chain) (reachable : chain.Reachable)
    {own supplied : Chain} (ownReachable : own.Reachable) (grows : own.Grows chain)
    {update : ChainUpdate} (offers : own.Offers update supplied) (faults : List Fault) :
    CallOutcome tables chain supplied update
      ((SQLiteChainStorage.onTables tables).persistChainUpdate supplied update faults) := by
  have refines := reachable.refines
  have ownRefines := ownReachable.refines
  have stored_case : ∀ {entry : ChainEntry},
      chain.entries.get? update.addedBlockHash = some entry →
      (tables.Matches supplied update.addedBlockHash → supplied.Grows chain) →
      CallOutcome tables chain supplied update
        ((SQLiteChainStorage.onTables tables).persistChainUpdate supplied update faults) := by
    intro entry stored shared
    rcases @persistChainUpdate_cases _ supplied (.onTables tables) update _ represents.consistent rfl
      (represents.commits_persistBody_stored stored _) faults with
      ⟨e, raised⟩ | ⟨_, _, returned, -, rfl, rfl, matched⟩
    · rw [raised]
      exact .raised e
    · rw [returned]
      exact .found matched (shared matched)
  rcases offers with rfl | ⟨candidate, block, copied, added⟩
  · -- The node has no other block than stored ones.
    cases known : chain.entries.get? update.addedBlockHash with
    | some entry => exact stored_case known fun _ => grows
    | none =>
        have unknown : ¬ supplied.contains update.addedBlockHash = true := by
          rw [Chain.contains_eq_true]
          rintro ⟨entry, stored⟩
          rw [grows _ _ stored] at known
          cases known
        obtain ⟨e, raised⟩ := persistChainUpdate_unknown (.onTables tables) unknown faults
        rw [raised]
        exact .raised e
  · rw [Chain.copy_eq ownRefines.network_eq, Except.ok.injEq] at copied
    subst copied
    cases known : chain.entries.get? update.addedBlockHash with
    | some entry =>
        exact stored_case known fun matched =>
          represents.grows_of_matches refines ownRefines grows added matched
    | none =>
        obtain ⟨old, new, switch⟩ := ownReachable.records_switch added
        by_cases moved : own.activeTipHash = chain.activeTipHash
        · -- The tip has not changed: the call is that of an up-to-date node.
          have behind : own.Behind chain := ⟨grows, moved⟩
          obtain ⟨update', grown, added', addedEq, activeEq, behind'⟩ :=
            behind.addBlock ownRefines refines added known
          obtain ⟨old', new', switch'⟩ := reachable.records_switch added'
          obtain ⟨entry, -, -, stored, -, hashEq, tipEq, -⟩ := ownRefines.added_entry added
          obtain ⟨entry', -, -, -, -, -, tipEq', -⟩ := refines.added_entry added'
          have suppliedRefines : supplied.Refines := by
            have after := ownRefines.addBlock block
            rwa [added] at after
          have grownRefines : grown.Refines := by
            have after := refines.addBlock block
            rwa [added'] at after
          have same := behind'.sameSupplied suppliedRefines grownRefines (hashEq ▸ stored)
          rw [persistChainUpdate_eq same addedEq activeEq
            (by rw [tipEq, tipEq', behind'.tip_eq])
            (by rw [switch.previous_tip, switch'.previous_tip, moved]) faults]
          rcases @persistChainUpdate_cases _ grown (.onTables tables) update' _ represents.consistent
            rfl (represents.commits_persistBody refines added' _) faults with
            ⟨e, raised⟩ | ⟨_, after, returned, -, represents', rfl, appends⟩
          · rw [raised]
            exact .raised e
          · rw [returned]
            have known' : supplied.contains update.addedBlockHash = true :=
              Chain.contains_eq_true.mpr ⟨entry, hashEq ▸ stored⟩
            exact .inserted added' represents' (addedEq ▸ appends) known' behind'.grows
        · rcases @persistChainUpdate_cases _ supplied (.onTables tables) update _
            represents.consistent rfl
            (represents.commits_persistBody_moved known switch.previous_tip moved _) faults with
            ⟨e, raised⟩ | ⟨_, _, -, -, impossible⟩
          · rw [raised]
            exact .raised e
          · cases impossible

end OurCoin
