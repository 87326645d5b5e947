import OurCoin.Node.Runs
import OurCoin.Storage.Decoding

/-!
# The tables represent the chain

`Represents tables chain` says that the tables hold a chain: the blocks with their records
in the order in which they were accepted, and the derived tables for the active chain.

* A database that was just created represents the initial chain (`Represents.openFresh`).
* Persisting an update turns tables that represent a chain into tables that represent the
  chain after it, or leaves them as they were (`Represents.persist`).
-/

set_option autoImplicit false

namespace OurCoin

open Raising Transactions

/-- Lists whose elements are related have the same image under functions that agree on
related elements. -/
theorem map_eq_map_of_forall₂ {α β γ : Type} {R : α → β → Prop} {f : α → γ} {g : β → γ}
    {xs : List α} {ys : List β} (related : List.Forall₂ R xs ys)
    (agree : ∀ x y, R x y → f x = g y) : xs.map f = ys.map g := by
  induction related with
  | nil => rfl
  | cons one _ ih => rw [List.map_cons, List.map_cons, agree _ _ one, ih]

variable [Platform]

/-! ## Blocks -/

/-- The tables hold the blocks of the given entries in their order. -/
structure StoresBlocks (tables : Tables) (items : List (Bytes × ChainEntry)) : Prop where
  in_order : tables.blocks.Pairwise fun first second =>
    first.acceptanceOrder < second.acceptanceOrder
  block_rows : items.mapM (fun item => blockValues item.1 item.2.block item.2.record) =
    .ok (tables.blocks.map fun row => { row with acceptanceOrder := 0 })
  exists_bodies : ∃ bodies,
    items.mapM (fun item => bodyRows item.1 0 item.2.block.transactions) = .ok bodies ∧
    tables.blockTransactions = bodies.flatten

/-- **The tables represent the chain.** -/
structure Represents (tables : Tables) (chain : Chain) : Prop where
  consistent : tables.Consistent
  stores : StoresBlocks tables chain.entries.items
  derives : Derives tables chain
  identity :
    tables.chainMetadata.map (fun row => (row.schemaVersion, row.chainId, row.genesisHash)) =
      [(schemaVersion, testnet.chainId, genesisHash)]

namespace StoresBlocks

variable {tables : Tables} {items : List (Bytes × ChainEntry)}

/-- The rows and the entries, one by one. -/
theorem forall₂ (stores : StoresBlocks tables items) :
    List.Forall₂ (fun item row => blockValues item.1 item.2.block item.2.record =
      .ok { row with acceptanceOrder := 0 }) items tables.blocks := by
  have pairs := mapM_eq_ok.mp stores.block_rows
  rwa [List.forall₂_map_right_iff] at pairs

/-- The rows name the stored blocks. -/
theorem hashes_eq (stores : StoresBlocks tables items) :
    items.map Prod.fst = tables.blocks.map BlockRow.blockHash :=
  map_eq_map_of_forall₂ stores.forall₂ fun _ _ written => (blockValues_eq_ok written).1.symm

/-- One more block. -/
theorem concat (stores : StoresBlocks tables items) (consistent : tables.Consistent) {hash : Bytes}
    {entry : ChainEntry} {row : BlockRow} {rows : List TransactionRow}
    (rowOk : blockValues hash entry.block entry.record = .ok row)
    (bodyOk : bodyRows hash 0 entry.block.transactions = .ok rows) {tables' : Tables}
    (blocks_eq : tables'.blocks =
      tables.blocks ++ [{ row with acceptanceOrder := tables.sequence + 1 }])
    (bodies_eq : tables'.blockTransactions = tables.blockTransactions ++ rows) :
    StoresBlocks tables' (items ++ [(hash, entry)]) := by
  have unnumbered : { row with acceptanceOrder := 0 } = row := by
    simp only [blockValues, bind_eq_ok, pure_eq_ok] at rowOk
    obtain ⟨_, -, _, -, _, -, _, -, _, -, rfl⟩ := rowOk
    rfl
  obtain ⟨bodies, bodiesOk, flat⟩ := stores.exists_bodies
  refine ⟨?_, ?_, bodies ++ [rows], ?_, ?_⟩
  · rw [blocks_eq, List.pairwise_append]
    refine ⟨stores.in_order, List.pairwise_singleton _ _, ?_⟩
    intro first member second last
    rw [List.mem_singleton.mp last]
    exact Int.lt_add_one_of_le (consistent.order_le first member)
  · rw [List.mapM_append, stores.block_rows, blocks_eq, List.map_append, List.map_singleton]
    simp only [List.mapM_cons, List.mapM_nil, rowOk, ok_bind, unnumbered]
    rfl
  · rw [List.mapM_append, bodiesOk]
    simp only [List.mapM_cons, List.mapM_nil, bodyOk, ok_bind]
    rfl
  · rw [bodies_eq, flat, List.flatten_append]
    simp

/-- The order of acceptance is the order of the rows. -/
theorem blockRows_eq (stores : StoresBlocks tables items) : tables.blockRows = tables.blocks :=
  List.Pairwise.insertionSort_eq (stores.in_order.imp fun less => less.le)

/-- Among the rows of several blocks, those of one block. -/
theorem filter_bodies {bodies : List (List TransactionRow)}
    (written : List.Forall₂
      (fun item rows => bodyRows item.1 0 item.2.block.transactions = .ok rows) items bodies)
    (nodup : (items.map Prod.fst).Nodup) {item : Bytes × ChainEntry} (member : item ∈ items) :
    bodyRows item.1 0 item.2.block.transactions =
      .ok (bodies.flatten.filter fun row => row.blockHash = item.1) := by
  induction written with
  | nil => cases member
  | @cons first rows items bodies one rest ih =>
      rw [List.map_cons, List.nodup_cons] at nodup
      have own : ∀ {item : Bytes × ChainEntry} {rows : List TransactionRow},
          bodyRows item.1 0 item.2.block.transactions = .ok rows →
            ∀ row ∈ rows, row.blockHash = item.1 :=
        fun written row rowMem => ((bodyRows_facts written).1 row rowMem).1
      have others : ∀ row ∈ bodies.flatten, row.blockHash ∈ items.map Prod.fst := by
        intro row rowMem
        obtain ⟨rows', rowsMem, inRows⟩ := List.mem_flatten.mp rowMem
        obtain ⟨index, inside, rfl⟩ := List.getElem_of_mem rowsMem
        obtain ⟨length, each⟩ := List.forall₂_iff_get.mp rest
        rw [own (each index (length ▸ inside) inside) row inRows]
        exact List.mem_map_of_mem (List.get_mem _ _)
      rw [List.flatten_cons, List.filter_append]
      rcases List.mem_cons.mp member with rfl | later
      · have mine : rows.filter (fun row => row.blockHash = item.1) = rows :=
          List.filter_eq_self.mpr fun row rowMem => by simpa using own one row rowMem
        have none : bodies.flatten.filter (fun row => row.blockHash = item.1) = [] := by
          rw [List.filter_eq_nil_iff]
          intro row rowMem same
          rw [decide_eq_true_eq] at same
          exact nodup.1 (same ▸ others row rowMem)
        rw [mine, none, List.append_nil]
        exact one
      · have none : rows.filter (fun row => row.blockHash = item.1) = [] := by
          rw [List.filter_eq_nil_iff]
          intro row rowMem same
          rw [decide_eq_true_eq, own one row rowMem] at same
          exact nodup.1 (same ▸ List.mem_map_of_mem later)
        rw [none, List.nil_append]
        exact ih nodup.2 later

/-- **The rows of a block are those that its insertion wrote.** -/
theorem transactionRows_eq (stores : StoresBlocks tables items)
    (nodup : (items.map Prod.fst).Nodup) {item : Bytes × ChainEntry} (member : item ∈ items) :
    bodyRows item.1 0 item.2.block.transactions = .ok (tables.transactionRows item.1) := by
  obtain ⟨bodies, bodiesOk, flat⟩ := stores.exists_bodies
  have own := filter_bodies (mapM_eq_ok.mp bodiesOk) nodup member
  rw [Tables.transactionRows, flat, List.Pairwise.insertionSort_eq]
  · exact own
  · exact (bodyRows_facts own).2

/-- A block that is not stored has no row. -/
theorem blockRow?_eq_none (stores : StoresBlocks tables items) {hash : Bytes}
    (fresh : hash ∉ items.map Prod.fst) : tables.blockRow? hash = none := by
  rw [stores.hashes_eq] at fresh
  rw [Tables.blockRow?, List.find?_eq_none]
  intro row member same
  rw [decide_eq_true_eq] at same
  exact fresh (same ▸ List.mem_map_of_mem member)

end StoresBlocks

/-! ## Persisting -/

variable {chain : Chain} {tables : Tables}

/-- An accepted block is stored last, under a new hash, and its record names the hash. -/
theorem Chain.Refines.accepted_facts (refines : chain.Refines) {block : Block} {added : ChainEntry}
    (accepted : chain.newEntry block = .ok added) :
    chain.entries.get? added.record.blockHash = none ∧
    (chain.store added).entries.items =
      chain.entries.items ++ [(added.record.blockHash, added)] ∧
    (chain.storeActive added).entries.items =
      chain.entries.items ++ [(added.record.blockHash, added)] := by
  obtain ⟨hash, parent, path, branch, next, -, fresh, -, -, rfl⟩ :=
    refines.newEntry_eq_ok.mp accepted
  exact ⟨fresh, Dict.set_items_of_fresh fresh _, Dict.set_items_of_fresh fresh _⟩

/-- Whichever tip is active, the added entry is new and is stored last. -/
theorem Chain.Refines.added_entry (refines : chain.Refines) {block : Block} {update : ChainUpdate}
    {grown : Chain} (added : chain.addBlock block = (.ok update, grown)) :
    ∃ entry, chain.newEntry block = .ok entry ∧
      chain.entries.get? entry.record.blockHash = none ∧
      grown.entries.get? entry.record.blockHash = some entry ∧
      grown.entries.items = chain.entries.items ++ [(entry.record.blockHash, entry)] ∧
      update.addedBlockHash = entry.record.blockHash ∧ update.activeTipHash = grown.activeTipHash ∧
      (update.becameActive = true ∨ update.becameActive = false ∧ grown = chain.store entry) := by
  rcases refines.addBlock_cases block with ⟨e, -, run⟩ | ⟨entry, accepted, -, run⟩ |
    ⟨entry, meeting, common, left, right, accepted, -, forks, run⟩
  · rw [added] at run
    cases run
  · rw [added] at run
    cases run
    obtain ⟨fresh, items, -⟩ := refines.accepted_facts accepted
    exact ⟨entry, accepted, fresh, Dict.get?_set_self _ _ _, items, rfl, rfl, .inr ⟨rfl, rfl⟩⟩
  · rw [added] at run
    cases run
    obtain ⟨fresh, -, items⟩ := refines.accepted_facts accepted
    exact ⟨entry, accepted, fresh, Dict.get?_set_self _ _ _, items, rfl, rfl, .inl rfl⟩

/-- A block on a side branch changes nothing that the derived tables hold. -/
theorem Derives.side (derives : Derives tables chain) (refines : chain.Refines) {block : Block}
    {added : ChainEntry} (accepted : chain.newEntry block = .ok added) {tables' : Tables}
    (canonical_eq : tables'.canonicalChain = tables.canonicalChain)
    (confirmed_eq : tables'.confirmedTransactions = tables.confirmedTransactions)
    (accounts_eq : tables'.accounts = tables.accounts)
    (metadata_eq : tables'.chainMetadata = tables.chainMetadata) :
    Derives tables' (chain.store added) := by
  obtain ⟨fresh, -, -⟩ := refines.accepted_facts accepted
  have tip := refines.tipEntry_store accepted
  have active : (chain.store added).activeChain = chain.activeChain := by
    obtain ⟨path, branch, ends⟩ := refines.exists_branch chain.tipEntry_stored
    have grown : (chain.store added).BranchTo chain.activeTipHash chain.tipEntry path branch := by
      apply ends.mono
      intro hash entry found
      rw [Chain.store, Dict.get?_set, if_neg, found]
      rintro rfl
      rw [fresh] at found
      cases found
    rw [Chain.Reachable.activeChain_eq ends]
    exact Chain.Reachable.activeChain_eq (tip.symm ▸ grown)
  have state : (chain.store added).state = chain.state := by
    rw [Chain.state, Chain.state, tip]
    rfl
  obtain ⟨blocks, state', confirmed, blocksOk, stateOk, canonicalOk, confirmedOk, flat, accountsOk⟩ :=
    derives.exists_rows
  refine ⟨⟨blocks, state', confirmed, active ▸ blocksOk, state ▸ stateOk, canonical_eq ▸ canonicalOk,
    confirmedOk, confirmed_eq ▸ flat, accounts_eq ▸ accountsOk⟩, ?_⟩
  rw [metadata_eq, Chain.totalSupplyAtoms, tip]
  exact derives.exists_metadata

/-- One more block: its row and those of its transactions come last. -/
structure Tables.Appends (tables tables' : Tables) (blockHash : Bytes) : Prop where
  fresh : ¬ tables.hasBlock blockHash
  exists_row : ∃ row, row.blockHash = blockHash ∧ tables'.blocks = tables.blocks ++ [row]
  exists_rows : ∃ rows, tables'.blockTransactions = tables.blockTransactions ++ rows

omit [Platform] in
theorem turns_metadataRow (storage : SQLiteChainStorage) (before : Tables) :
    Turns before storage.metadataRow fun _ tables => tables = before := by
  apply Turns.lift_bind
  intro _ _
  refine @Turns.bind _ _ _ (fun _ tables => tables = before) _ _ _ (Turns.query rfl) ?_
  rintro rows _ rfl
  exact Turns.lift fun _ _ => rfl

/-- **Persisting an update** commits tables that represent the new chain, and inserts the
added block. -/
theorem Represents.commits_persistBody (represents : Represents tables chain)
    (refines : chain.Refines) {block : Block} {update : ChainUpdate} {grown : Chain}
    (added : chain.addBlock block = (.ok update, grown)) (storage : SQLiteChainStorage) :
    Commits tables (storage.persistBody grown update) fun inserted tables' =>
      Represents tables' grown ∧ inserted = true ∧ tables.Appends tables' update.addedBlockHash := by
  obtain ⟨entry, accepted, fresh, stored, items, hashEq, -, derived⟩ := refines.added_entry added
  have new : update.addedBlockHash ∉ chain.entries.items.map Prod.fst := by
    rw [hashEq]
    exact Dict.get?_eq_none.mp fresh
  have unknown : tables.blockRow? update.addedBlockHash = none :=
    represents.stores.blockRow?_eq_none new
  have notStored : ¬ tables.hasBlock update.addedBlockHash := by
    rw [Tables.hasBlock, ← represents.stores.hashes_eq]
    exact new
  have appended : ∀ {row : BlockRow} {rows : List TransactionRow} {tables' : Tables},
      tables'.blocks = tables.blocks ++ [row] →
      tables'.blockTransactions = tables.blockTransactions ++ rows →
      row.blockHash = update.addedBlockHash → tables.Appends tables' update.addedBlockHash :=
    fun blocksEq bodiesEq named => ⟨notStored, ⟨_, named, blocksEq⟩, ⟨_, bodiesEq⟩⟩
  apply Commits.bind (turns_metadataRow storage tables)
  rintro metadata _ rfl
  apply Commits.lift_bind
  intro storedTip _
  refine @Commits.bind _ _ _ (fun existing tables' => existing = none ∧ tables' = _) _ _ _
    (Turns.query ⟨unknown, rfl⟩) ?_
  rintro _ _ ⟨rfl, rfl⟩
  rw [if_neg (by simp)]
  apply Commits.lift_bind
  intro expected _
  apply Commits.lift_bind
  intro _ _
  apply Commits.bind (turns_insertBlock (hashEq ▸ stored) _)
  rintro _ inserted ⟨row, rows, rowOk, rowsOk, rfl⟩
  have rowHash := (blockValues_eq_ok rowOk).1
  rw [hashEq] at rowOk rowsOk
  have stores : ∀ {tables' : Tables}, _ → _ → StoresBlocks tables' grown.entries.items :=
    fun blocksEq bodiesEq =>
      items ▸ represents.stores.concat represents.consistent rowOk rowsOk blocksEq bodiesEq
  rcases derived with active | ⟨side, rfl⟩
  · dsimp only
    rw [if_pos active]
    apply Commits.bind (turns_replaceDerivedState grown _)
    intro _ final rederived
    apply Commits.commit
    intro consistent
    have blocksEq := rederived.blocks_eq
    have bodiesEq := rederived.blockTransactions_eq
    exact ⟨⟨consistent, stores blocksEq bodiesEq, rederived.derives,
      rederived.identity_eq.trans represents.identity⟩, rfl, appended blocksEq bodiesEq rowHash⟩
  · dsimp only
    rw [if_neg (by simp [side])]
    apply Commits.commit
    intro consistent
    exact ⟨⟨consistent, stores rfl rfl, represents.derives.side refines accepted rfl rfl rfl rfl,
      represents.identity⟩, rfl, appended rfl rfl rowHash⟩

/-- A call of `persist_chain_update` raises and changes nothing, or commits what its
statements commit. -/
theorem persistChainUpdate_cases {storage : SQLiteChainStorage} {update : ChainUpdate}
    {final : Bool → Tables → Prop} (consistent : storage.connection.committed.Consistent)
    (idle : storage.connection.working = none)
    (commits : Commits storage.connection.committed (storage.persistBody chain update) final)
    (faults : List Fault) :
    (∃ e, storage.persistChainUpdate chain update faults = (.error e, storage)) ∨
    (∃ inserted data, storage.persistChainUpdate chain update faults =
      (.ok inserted, { storage with connection := ⟨data, none⟩ }) ∧
      chain.contains update.addedBlockHash = true ∧ final inserted data) := by
  unfold SQLiteChainStorage.persistChainUpdate
  dsimp only
  split
  · exact .inl ⟨_, rfl⟩
  · rename_i checked
    simp only [bind_eq_ok, raiseIf_eq_ok, exists_const, not_not] at checked
    obtain ⟨-, -, -, known, -⟩ := checked
    have outcomes := @transaction_cases _ _ _ operationalError SQLiteChainStorage.persistError _ _ _
      commits ⟨storage.connection, faults⟩ idle ⟨rfl, consistent⟩
    generalize rollingBack SQLiteChainStorage.persistError _ _ = outcome at outcomes
    obtain ⟨result, session⟩ := outcome
    rcases outcomes with ⟨e, raised, unchanged⟩ | ⟨inserted, data, returned, committed, held, -⟩
    · dsimp only at raised unchanged ⊢
      rw [raised, unchanged]
      exact .inl ⟨e, rfl⟩
    · dsimp only at returned committed ⊢
      rw [returned, committed]
      exact .inr ⟨inserted, data, rfl, known, held⟩

/-- **A persisted update leaves tables that represent the chain after it.** -/
theorem Represents.persist {storage after : SQLiteChainStorage}
    (represents : Represents storage.connection.committed chain)
    (idle : storage.connection.working = none) (refines : chain.Refines) {block : Block}
    {update : ChainUpdate} {grown : Chain} (added : chain.addBlock block = (.ok update, grown))
    {faults : List Fault} {inserted : Bool}
    (persisted : storage.persistChainUpdate grown update faults = (.ok inserted, after)) :
    ∃ data, after = { storage with connection := ⟨data, none⟩ } ∧ Represents data grown := by
  rcases persistChainUpdate_cases represents.consistent idle
    (represents.commits_persistBody refines added storage) faults with
    ⟨e, raised⟩ | ⟨inserted', data, committed, -, represents', -⟩
  · rw [raised] at persisted
    cases persisted
  · rw [committed] at persisted
    cases persisted
    exact ⟨data, rfl, represents'⟩

/-! ## A new database -/

theorem commits_initializeBody :
    Commits Tables.empty (SQLiteChainStorage.initializeBody testnet genesisChain) fun _ tables =>
      Represents tables genesisChain := by
  have stored : genesisChain.entries.get? genesisChain.activeTipHash = some genesisEntry :=
    Dict.get?_set_self _ _ _
  have nothing : StoresBlocks Tables.empty [] := ⟨.nil, rfl, [], rfl, rfl⟩
  apply Commits.bind (turns_insertBlock stored _)
  rintro _ _ ⟨row, rows, rowOk, rowsOk, rfl⟩
  apply Commits.lift_bind
  intro supply supplyOk
  apply Commits.bind (Turns.last _ (fun _ consistent run => consistent.insertMetadataRow run)
    fun _ run => Tables.insertMetadataRow_eq run)
  rintro _ _ rfl
  apply Commits.bind (turns_replaceDerivedState genesisChain _)
  intro _ final rederived
  apply Commits.commit
  intro consistent
  exact ⟨consistent, nothing.concat Tables.Consistent.empty rowOk rowsOk rederived.blocks_eq
    rederived.blockTransactions_eq, rederived.derives, rederived.identity_eq⟩

/-- The open and idle database of the testnet with the given tables. -/
def SQLiteChainStorage.onTables (data : Tables) : SQLiteChainStorage where
  connection := ⟨data, none⟩
  network := testnet
  genesisHash := OurCoin.genesisHash
  closed := false

/-- **A new database represents the initial chain.** -/
theorem Represents.openFresh {storage : SQLiteChainStorage}
    (opened : SQLiteChainStorage.openFresh testnet = .ok storage) :
    ∃ data, storage = .onTables data ∧ Represents data genesisChain := by
  simp only [SQLiteChainStorage.openFresh, Chain.init_testnet, ok_bind] at opened
  have outcomes := @transaction_cases _ _ _ operationalError id _ _ _ commits_initializeBody
    ⟨⟨Tables.empty, none⟩, []⟩ rfl ⟨rfl, Tables.Consistent.empty⟩
  generalize rollingBack id _ _ = outcome at outcomes opened
  obtain ⟨result, session⟩ := outcome
  rcases outcomes with ⟨e, raised, -⟩ | ⟨_, data, returned, committed, held, -⟩
  · dsimp only at raised opened
    rw [raised] at opened
    cases opened
  · dsimp only at returned committed opened
    rw [returned, committed] at opened
    cases opened
    exact ⟨data, rfl, held⟩

end OurCoin
