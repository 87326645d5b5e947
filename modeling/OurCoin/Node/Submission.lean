import OurCoin.Node.Reconcile
import OurCoin.Tree.ForkChoice

/-!
# What a submitted block can do to a node

Everything between the call of `submit_block` and its return, for an in-memory node and
for a persistent one, whatever faults its statements meet.

* The statements of `persist_chain_update` work inside one transaction, so it raises and
  changes nothing, or commits (`persistChainUpdate_cases`).
* A chain is copied without loss (`Chain.copy_eq`), and no step after the commit raises.
* `LocalNode.submitBlock_cases` joins this with `Chain.Refines.addBlock_cases`: a
  submission raises and changes nothing, or stores the block on a side branch, or stores
  it and switches the tip and the pool.
-/

set_option autoImplicit false

namespace OurCoin

open Raising Transactions

variable [Platform]

/-! ## The statements of a storage -/

theorem inside_insertTransactions (blockHash : Bytes) : ∀ (transactions : List Transaction)
    (position : Nat), Inside (insertTransactions blockHash position transactions)
  | [], _ => .pure ()
  | _ :: rest, position => by
      apply Inside.bind (.lift _)
      intro row
      apply Inside.bind (.execute _ _)
      intro _
      exact inside_insertTransactions blockHash rest (position + 1)

theorem inside_insertBlock (chain : Chain) (blockHash : Bytes) :
    Inside (insertBlock chain blockHash) := by
  apply Inside.bind (.lift _)
  intro block
  apply Inside.bind (.lift _)
  intro record
  apply Inside.bind (.lift _)
  intro row
  apply Inside.bind (.execute _ _)
  intro _
  exact inside_insertTransactions blockHash block.transactions 0

theorem inside_insertConfirmed (block : Block) : ∀ transactions : List Transaction,
    Inside (insertConfirmed block transactions)
  | [] => .pure ()
  | _ :: rest => by
      apply Inside.bind (.lift _)
      intro row
      apply Inside.bind (.execute _ _)
      intro _
      exact inside_insertConfirmed block rest

theorem inside_insertCanonical : ∀ blocks : List Block, Inside (insertCanonical blocks)
  | [] => .pure ()
  | block :: rest => by
      apply Inside.bind (.lift _)
      intro row
      apply Inside.bind (.execute _ _)
      intro _
      apply Inside.bind (inside_insertConfirmed block block.transactions)
      intro _
      exact inside_insertCanonical rest

omit [Platform] in
theorem inside_insertAccounts : ∀ items : List (Text × Account), Inside (insertAccounts items)
  | [] => .pure ()
  | _ :: rest => by
      apply Inside.bind (.lift _)
      intro row
      apply Inside.bind (.execute _ _)
      intro _
      exact inside_insertAccounts rest

theorem inside_replaceDerivedState (chain : Chain) : Inside (replaceDerivedState chain) := by
  apply Inside.bind (.execute _ _)
  intro _
  apply Inside.bind (.execute _ _)
  intro _
  apply Inside.bind (.execute _ _)
  intro _
  apply Inside.bind (.lift _)
  intro activeChain
  apply Inside.bind (inside_insertCanonical activeChain)
  intro _
  apply Inside.bind (.lift _)
  intro state
  apply Inside.bind (inside_insertAccounts state.snapshot.accounts)
  intro _
  apply Inside.bind (.lift _)
  intro supply
  exact .execute _ _

namespace SQLiteChainStorage

omit [Platform] in
theorem inside_metadataRow (storage : SQLiteChainStorage) : Inside storage.metadataRow := by
  apply Inside.bind (.lift _)
  intro _
  apply Inside.bind (.query _ _)
  intro rows
  exact .lift _

theorem inside_assertStoredBlockMatches (chain : Chain) (blockHash : Bytes) :
    Inside (assertStoredBlockMatches chain blockHash) := by
  apply Inside.bind (.lift _)
  intro exactHash
  apply Inside.bind (.query _ _)
  intro found
  apply Inside.bind (.lift _)
  intro row
  apply Inside.bind (.lift _)
  intro heads
  apply Inside.bind (.query _ _)
  intro transactionRows
  exact .lift _

/-- The statements of one update end with their commit. -/
theorem closing_persistBody (storage : SQLiteChainStorage) (chain : Chain) (update : ChainUpdate) :
    Closing (fun _ => True) (storage.persistBody chain update) fun _ _ => True := by
  apply Closing.bind storage.inside_metadataRow
  intro metadata
  apply Closing.bind (Inside.lift _)
  intro storedTip
  apply Closing.bind (Inside.query _ _)
  intro existing
  split
  · apply Closing.bind (inside_assertStoredBlockMatches chain update.addedBlockHash)
    intro _
    exact .commit fun _ _ => trivial
  · apply Closing.bind (Inside.lift _)
    intro expected
    apply Closing.bind (Inside.lift _)
    intro _
    apply Closing.bind (inside_insertBlock chain update.addedBlockHash)
    intro _
    dsimp only
    split
    · apply Closing.bind (inside_replaceDerivedState chain)
      intro _
      exact .commit fun _ _ => trivial
    · exact .commit fun _ _ => trivial

/-- **Persisting an update raises and changes nothing, or commits.** -/
theorem persistChainUpdate_cases (storage : SQLiteChainStorage) (chain : Chain)
    (update : ChainUpdate) (faults : List Fault) (idle : storage.connection.working = none) :
    (∃ e, storage.persistChainUpdate chain update faults = (.error e, storage)) ∨
    (∃ inserted data, storage.persistChainUpdate chain update faults =
      (.ok inserted, { storage with connection := ⟨data, none⟩ })) := by
  unfold persistChainUpdate
  dsimp only
  split
  · rename_i e raised
    exact .inl ⟨e, rfl⟩
  · have outcomes := @transaction_cases _ _ _ operationalError persistError _ _ _
      (storage.closing_persistBody chain update) ⟨storage.connection, faults⟩ idle trivial
    generalize rollingBack persistError _ _ = outcome at outcomes ⊢
    obtain ⟨result, session⟩ := outcome
    rcases outcomes with ⟨e, raised, same⟩ | ⟨inserted, data, returned, committed, -⟩
    · refine .inl ⟨e, ?_⟩
      dsimp only at raised same ⊢
      rw [raised, same]
    · refine .inr ⟨inserted, data, ?_⟩
      dsimp only at returned committed ⊢
      rw [returned, committed]

/-- Nothing but the connection of a storage changes, and the connection stays idle. -/
theorem persistChainUpdate_idle {storage after : SQLiteChainStorage} {chain : Chain}
    {update : ChainUpdate} {faults : List Fault} {inserted : Bool}
    (idle : storage.connection.working = none)
    (persisted : storage.persistChainUpdate chain update faults = (.ok inserted, after)) :
    after.connection.working = none := by
  rcases storage.persistChainUpdate_cases chain update faults idle with ⟨e, raised⟩ |
    ⟨inserted', data, returned⟩
  · rw [raised] at persisted
    cases persisted
  · rw [returned] at persisted
    cases persisted
    rfl

end SQLiteChainStorage

/-! ## The chain of a node -/

namespace Chain

variable {chain : Chain}

/-- **A copy is the same chain.** -/
theorem copy_eq (network_eq : chain.network = testnet) : chain.copy = .ok chain := by
  rw [copy, network_eq, init_testnet, ok_bind, pure_eq_ok]
  cases chain
  subst network_eq
  rfl

/-- The active state of a chain can be restored. -/
theorem Refines.exists_state (refines : chain.Refines) :
    ∃ path branch state, chain.BranchTo chain.activeTipHash chain.tipEntry path branch ∧
      chain.state = .ok state ∧ state.Agrees branch.state ∧ state.network = testnet := by
  obtain ⟨path, branch, ends⟩ := refines.exists_branch chain.tipEntry_stored
  obtain ⟨state, restored, same⟩ := refines.restores ends
  exact ⟨path, branch, state, ends, restored, same,
    same.network_eq.trans ends.replays.network_eq⟩

/-- Storing a block on a side branch keeps the tip entry. -/
theorem Refines.tipEntry_store (refines : chain.Refines) {block : Block} {added : ChainEntry}
    (accepted : chain.newEntry block = .ok added) :
    (chain.store added).tipEntry = chain.tipEntry := by
  obtain ⟨hash, parent, path, branch, next, -, fresh, -, -, rfl⟩ :=
    refines.newEntry_eq_ok.mp accepted
  apply tipEntry_eq
  have tip := chain.tipEntry_stored
  rw [Chain.store, Dict.get?_set, if_neg, tip]
  intro same
  have hashEq : (next.entry hash (some block.header.previousBlockHash)).record.blockHash = hash := rfl
  rw [← same, hashEq, fresh] at tip
  cases tip

end Chain

/-! ## Submitting a block -/

namespace LocalNode

/-- The database after an update was persisted. Without a database there is nothing to
persist. -/
def Persists (before : Option SQLiteChainStorage) (chain : Chain) (update : ChainUpdate)
    (faults : List Fault) (after : Option SQLiteChainStorage) : Prop :=
  match before with
  | none => after = none
  | some storage => ∃ inserted persisted,
      storage.persistChainUpdate chain update faults = (.ok inserted, persisted) ∧
      after = some persisted

/-- What holds of a node between calls. -/
structure Invariant (node : LocalNode) : Prop where
  chain_reachable : node.chain.Reachable
  pool_sound : ∃ state, node.chain.state = .ok state ∧
    node.mempool.Sound state (node.chain.height + 1)
  storage_idle : ∀ storage ∈ node.storage, storage.connection.working = none

variable {node : LocalNode}

/-- Up to the switch of the chain, a submission raises and changes nothing, or is the
acceptance of the block and of its update by the database. -/
theorem submitBlock_addBlock (refines : node.chain.Refines)
    (idle : ∀ storage ∈ node.storage, storage.connection.working = none) (block : Block)
    (faults : List Fault) :
    (∃ e, node.submitBlock block faults = (.error e, node)) ∨
    (∃ update chain storage, node.chain.addBlock block = (.ok update, chain) ∧
      Persists node.storage chain update faults storage ∧
      node.submitBlock block faults = finishSubmit ⟨chain, node.mempool, storage⟩ update) := by
  obtain ⟨chain, mempool, storage⟩ := node
  have unchanged : ∀ e chain', chain.addBlock block = (.error e, chain') → chain' = chain := by
    intro e chain' outcome
    have kept := refines.addBlock_error (congrArg Prod.fst outcome)
    rw [outcome] at kept
    exact kept
  rw [submitBlock]
  cases storage with
  | none =>
      dsimp only
      cases outcome : chain.addBlock block with
      | mk result chain' =>
          cases result with
          | error e =>
              rw [unchanged e chain' outcome]
              exact .inl ⟨e, rfl⟩
          | ok update => exact .inr ⟨update, chain', none, rfl, rfl, rfl⟩
  | some storage =>
      dsimp only
      rw [Chain.copy_eq refines.network_eq]
      dsimp only
      cases outcome : chain.addBlock block with
      | mk result chain' =>
          cases result with
          | error e => exact .inl ⟨e, rfl⟩
          | ok update =>
              dsimp only
              rcases storage.persistChainUpdate_cases chain' update faults (idle storage rfl) with
                ⟨e, raised⟩ | ⟨inserted, data, returned⟩
              · rw [raised]
                exact .inl ⟨e, rfl⟩
              · rw [returned]
                exact .inr ⟨update, chain', _, rfl, ⟨inserted, _, returned, rfl⟩, rfl⟩

/-- What is pending was valid once. -/
theorem Invariant.genuine (inv : node.Invariant) : node.mempool.Genuine testnet := by
  obtain ⟨path, branch, state, -, stateOk, -, network⟩ := inv.chain_reachable.refines.exists_state
  obtain ⟨state', stateOk', sound⟩ := inv.pool_sound
  rw [stateOk] at stateOk'
  cases stateOk'
  exact network ▸ sound.genuine

/-- **Everything a submission can do**: raise and change nothing, store the block on a side
branch, or store it and switch the tip, with the pool reconciled. -/
theorem Invariant.submitBlock_cases (inv : node.Invariant) (block : Block) (faults : List Fault) :
    (∃ e, node.submitBlock block faults = (.error e, node)) ∨
    (∃ added storage, node.chain.newEntry block = .ok added ∧
      node.chain.addBlock block =
        (.ok (.side added.record.blockHash node.chain.activeTipHash), node.chain.store added) ∧
      Persists node.storage (node.chain.store added)
        (.side added.record.blockHash node.chain.activeTipHash) faults storage ∧
      node.submitBlock block faults =
        (.ok (.side added.record.blockHash node.chain.activeTipHash),
          ⟨node.chain.store added, node.mempool, storage⟩)) ∨
    (∃ added meeting common left right mempool storage state,
      node.chain.newEntry block = .ok added ∧
      node.chain.addBlock block =
        (.ok (.active added.record.blockHash meeting (left.map Prod.fst).reverse
          (right.map Prod.fst)), node.chain.storeActive added) ∧
      (node.chain.storeActive added).Forks node.chain.activeTipHash added.record.blockHash meeting
        common left right ∧
      Persists node.storage (node.chain.storeActive added)
        (.active added.record.blockHash meeting (left.map Prod.fst).reverse (right.map Prod.fst))
        faults storage ∧
      (node.chain.storeActive added).state = .ok state ∧
      reconcilePool (node.chain.storeActive added) node.mempool
        (.active added.record.blockHash meeting (left.map Prod.fst).reverse
          (right.map Prod.fst)) = (.ok (), mempool) ∧
      mempool.Sound state ((node.chain.storeActive added).height + 1) ∧
      node.submitBlock block faults =
        (.ok (.active added.record.blockHash meeting (left.map Prod.fst).reverse
          (right.map Prod.fst)), ⟨node.chain.storeActive added, mempool, storage⟩)) := by
  have refines := inv.chain_reachable.refines
  rcases submitBlock_addBlock refines inv.storage_idle block faults with ⟨e, outcome⟩ |
    ⟨update, chain, storage, added, persists, outcome⟩
  · exact .inl ⟨e, outcome⟩
  right
  rw [outcome]
  rcases refines.addBlock_cases block with ⟨e, -, run⟩ | ⟨entry, accepted, -, run⟩ |
    ⟨entry, meeting, common, left, right, accepted, -, forks, run⟩
  · rw [added] at run
    cases run
  · rw [added] at run
    cases run
    exact .inl ⟨entry, storage, accepted, added, persists, rfl⟩
  · rw [added] at run
    cases run
    right
    have grown : (node.chain.storeActive entry).Refines := refines.store accepted rfl rfl
    obtain ⟨path, branch, state', ends, stateOk', same, network⟩ := grown.exists_state
    obtain ⟨_, _, _, _, mempool, _, _, _, _, _, reconciled, _, sound'⟩ :=
      @reconcilePool_ok _ _ grown _ inv.genuine _ _ entry.record.blockHash _ _ _ forks _ stateOk'
        network
    refine ⟨entry, meeting, common, left, right, mempool, storage, state', accepted, added, forks,
      persists, stateOk', reconciled, sound', ?_⟩
    rw [finishSubmit, if_neg (by simp [ChainUpdate.active])]
    dsimp only
    rw [reconciled]

/-- **An accepted block was added to the chain.** -/
theorem Invariant.submitBlock_ok (inv : node.Invariant) {block : Block} {faults : List Fault}
    {update : ChainUpdate} {after : LocalNode}
    (accepted : node.submitBlock block faults = (.ok update, after)) :
    node.chain.addBlock block = (.ok update, after.chain) := by
  rcases inv.submitBlock_cases block faults with ⟨e, raised⟩ |
    ⟨added, storage, -, run, -, returned⟩ |
    ⟨added, meeting, common, left, right, mempool, storage, state, -, run, -, -, -, -, -, returned⟩
  · rw [raised] at accepted
    cases accepted
  · rw [returned] at accepted
    cases accepted
    exact run
  · rw [returned] at accepted
    cases accepted
    exact run

/-- The chain stores an accepted block under its hash. -/
theorem Invariant.submitBlock_stores (inv : node.Invariant) {block : Block} {faults : List Fault}
    {update : ChainUpdate} {after : LocalNode} {hash : Bytes}
    (accepted : node.submitBlock block faults = (.ok update, after))
    (hashOk : block.blockHash = .ok hash) : after.chain.contains hash = true := by
  have refines := inv.chain_reachable.refines
  have added := inv.submitBlock_ok accepted
  obtain ⟨entry, newOk, items, -, -, -⟩ := refines.addBlock_ok (congrArg Prod.fst added)
  obtain ⟨hash', parent, path, branch, next, hashOk', -, -, -, rfl⟩ := refines.newEntry_eq_ok.mp newOk
  rw [hashOk] at hashOk'
  cases hashOk'
  rw [added] at items
  apply Chain.contains_eq_true.mpr
  refine ⟨next.entry hash (some block.header.previousBlockHash), Dict.get?_eq_some.mpr ?_⟩
  rw [items]
  exact List.mem_append_right _ (List.mem_singleton_self _)

end LocalNode

end OurCoin
