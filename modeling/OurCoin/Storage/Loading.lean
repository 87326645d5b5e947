import OurCoin.Storage.Representation

/-!
# Loading a database

What `load_chain` returns on tables that represent a chain: it succeeds, and the chain it
builds is the one that is represented (`Represents.loadChain_eq`).

* Every row is decoded to the block and the record of its entry (`Decoded`).
* Replaying the rows in the order of acceptance adds the accepted blocks again, one by
  one, and leads to the same chain (`replayRows_eq`), including the choice between
  branches of equal work.
* The derived tables agree with what the replayed chain derives, so the last check
  passes (`Derives.validateDerivedState_eq`).
* The canonical index finds the block of every height of the active chain
  (`Represents.getCanonicalBlockByHeight_eq`).
-/

set_option autoImplicit false

namespace OurCoin

open Raising Transactions

variable [Platform]

/-! ## Rows -/

/-- A row is decoded to an entry. -/
structure Decoded (tables : Tables) (item : Bytes × ChainEntry) (row : BlockRow) : Prop where
  block_eq : decodeBlockRow tables row = .ok item.2.block
  record_eq : recordFromRow row = .ok item.2.record
  parent_eq : row.parentHash = item.2.record.parentHash
  height_eq : decodeStoredU64 row.height "block height" = .ok item.2.block.header.height
  hash_eq : row.blockHash = item.1
  hash_ok : item.2.block.blockHash = .ok item.1

/-- The block of an entry is decoded from a row. The cached work and supply of the row are
left open. -/
structure RawDecoded (tables : Tables) (item : Bytes × ChainEntry) (row : BlockRow) : Prop where
  block_eq : decodeBlockRow tables row = .ok item.2.block
  parent_eq : row.parentHash = item.2.record.parentHash
  height_eq : decodeStoredU64 row.height "block height" = .ok item.2.block.header.height
  hash_eq : row.blockHash = item.1
  hash_ok : item.2.block.blockHash = .ok item.1

theorem RawDecoded.decoded {tables : Tables} {item : Bytes × ChainEntry} {row : BlockRow}
    (raw : RawDecoded tables item row) (record_eq : recordFromRow row = .ok item.2.record) :
    Decoded tables item row :=
  ⟨raw.block_eq, record_eq, raw.parent_eq, raw.height_eq, raw.hash_eq, raw.hash_ok⟩

/-- The parent of a stored block ends a branch. -/
theorem Chain.Refines.exists_parentBranch {chain : Chain} (refines : chain.Refines) {hash : Bytes}
    {entry : ChainEntry} (stored : chain.entries.get? hash = some entry) {parent : Bytes}
    (named : entry.record.parentHash = some parent) :
    ∃ parentEntry front earlier, chain.BranchTo parent parentEntry front earlier := by
  obtain ⟨path, branch, ends⟩ := refines.exists_branch stored
  rcases ends.exists_parent refines with ⟨-, root⟩ | ⟨front, parentEntry, earlier, -, isParent, ends'⟩
  · rw [root] at named
    cases named
  · rw [isParent, Option.some.injEq] at named
    exact ⟨parentEntry, front, earlier, named ▸ ends'⟩

/-- A row with the values of an entry is decoded to it. -/
theorem Decoded.of_written {tables : Tables} {chain : Chain} (refines : chain.Refines)
    {item : Bytes × ChainEntry} (stored : chain.entries.get? item.1 = some item.2) {row : BlockRow}
    (written : blockValues item.1 item.2.block item.2.record = .ok { row with acceptanceOrder := 0 })
    (bodyOk : bodyRows item.1 0 item.2.block.transactions = .ok (tables.transactionRows item.1)) :
    Decoded tables item row := by
  obtain ⟨path, branch, ends⟩ := refines.exists_branch stored
  obtain ⟨hashEq, parentEq, heightOk, -⟩ := blockValues_eq_ok written
  have hashLength := BlockHeader.length_blockHash ends.hash_ok
  have parentLength : ∀ parent ∈ item.2.record.parentHash, parent.length = 32 := by
    intro parent named
    obtain ⟨_, _, _, ends'⟩ := refines.exists_parentBranch stored named
    exact BlockHeader.length_blockHash ends'.hash_ok
  refine ⟨?_, ?_, parentEq, ?_, hashEq, ends.hash_ok⟩
  · exact decodeBlockRow_eq rfl written bodyOk rfl ends.hash_ok (refines.wellMade stored)
  · exact recordFromRow_eq rfl written ends.blockHash_eq hashLength parentLength
  · rw [ends.height_eq, ← ends.block_eq] at heightOk
    exact decodeStoredU64_eq heightOk _

theorem Represents.decoded {tables : Tables} {chain : Chain} (represents : Represents tables chain)
    (refines : chain.Refines) : List.Forall₂ (Decoded tables) chain.entries.items tables.blocks := by
  have nodup : (chain.entries.items.map Prod.fst).Nodup := chain.entries.nodupKeys
  have rows := represents.stores.forall₂
  rw [List.forall₂_iff_get] at rows ⊢
  refine ⟨rows.1, ?_⟩
  intro index inside inside'
  have written := rows.2 index inside inside'
  have member := List.get_mem chain.entries.items ⟨index, inside⟩
  exact .of_written refines (Dict.get?_eq_some.mpr member) written
    (represents.stores.transactionRows_eq nodup member)

/-! ## The replay -/

omit [Platform] in
/-- The last element of a list is related to the last one of a related list. -/
theorem forall₂_concat_left {α β : Type} {R : α → β → Prop} {xs : List α} {x : α} {ys : List β}
    (related : List.Forall₂ R (xs ++ [x]) ys) :
    ∃ front y, ys = front ++ [y] ∧ List.Forall₂ R xs front ∧ R x y := by
  induction xs generalizing ys with
  | nil =>
      obtain ⟨y, rest, one, none, rfl⟩ := List.forall₂_cons_left_iff.mp related
      cases none
      exact ⟨[], y, rfl, .nil, one⟩
  | cons first xs ih =>
      obtain ⟨y, rest, one, others, rfl⟩ := List.forall₂_cons_left_iff.mp related
      obtain ⟨front, last, rfl, firsts, lasts⟩ := ih others
      exact ⟨y :: front, last, rfl, .cons one firsts, lasts⟩

/-- One more row is one more round. -/
theorem replayRows_concat {storage : SQLiteChainStorage} {check : Bool} {rows : List BlockRow}
    {row : BlockRow} {chain grown : Chain} (before : storage.replayRows check rows = .ok chain)
    (next : storage.replayRow check false chain row = .ok grown) :
    storage.replayRows check (rows ++ [row]) = .ok grown := by
  cases rows with
  | nil => cases before
  | cons first rest =>
      simp only [SQLiteChainStorage.replayRows, List.cons_append, bind_eq_ok] at before ⊢
      obtain ⟨initial, initialOk, root, rootOk, folded⟩ := before
      exact ⟨initial, initialOk, root, rootOk, foldlM_concat_eq_ok.mpr ⟨chain, folded, next⟩⟩

/-- The check of a row against the record of its replayed entry passes. -/
theorem checkRecord_eq {storage : SQLiteChainStorage} {chain : Chain} {item : Bytes × ChainEntry}
    {row : BlockRow} {check : Bool} (decoded : Decoded storage.tables item row)
    (stored : chain.entries.get? item.1 = some item.2) :
    SQLiteChainStorage.checkRecord check chain row item.2.block = .ok () := by
  rw [SQLiteChainStorage.checkRecord]
  split
  · have found : chain.getRecord item.1 = .ok item.2.record := by
      rw [Chain.getRecord, Chain.entryOf_eq_ok.mpr stored]
      rfl
    rw [decoded.record_eq, ok_bind, decoded.hash_ok, ok_bind, found]
    simp
  · rfl

/-- What the initial chain stores. -/
theorem init_facts {chain : Chain} (started : Chain.init testnet = .ok chain) :
    chain.entries.items = [(chain.activeTipHash, chain.tipEntry)] ∧
      chain.activeTipHash = genesisHash ∧ chain.tipEntry.record.parentHash = none := by
  obtain ⟨-, items⟩ := Chain.init_items started
  rw [Chain.init_testnet] at started
  cases started
  have stored : genesisChain.entries.get? genesisChain.activeTipHash = some genesisEntry :=
    Dict.get?_set_self _ _ _
  exact ⟨items, rfl, by rw [Chain.tipEntry_eq stored]; rfl⟩

/-- **Replaying the stored blocks gives the chain that stored them.** -/
theorem replayRows_eq {storage : SQLiteChainStorage} {accepted : List Block} {chain : Chain}
    (run : Chain.Run accepted chain) (network_eq : storage.network = testnet)
    (genesis_eq : storage.genesisHash = genesisHash) (check : Bool) {rows : List BlockRow}
    (decoded : List.Forall₂ (Decoded storage.tables) chain.entries.items rows) :
    storage.replayRows check rows = .ok chain := by
  induction run generalizing rows with
  | @init chain started =>
      obtain ⟨items, named, parentNone⟩ := init_facts started
      rw [items] at decoded
      obtain ⟨row, rest, one, none, rfl⟩ := List.forall₂_cons_left_iff.mp decoded
      cases none
      have height := one.height_eq
      have parent := one.parent_eq.trans parentNone
      have recordOk := @checkRecord_eq _ storage chain _ row check one chain.tipEntry_stored
      simp only [SQLiteChainStorage.replayRows, network_eq, started, ok_bind,
        SQLiteChainStorage.replayRow, one.block_eq, List.foldlM_nil, bind_eq_ok, raiseIf_eq_ok,
        exists_const, pure_eq_ok, exists_eq_right]
      refine ⟨by simpa using parent, _, height, by simp, _, ?_, _, recordOk, rfl⟩
      simp only [SQLiteChainStorage.replayBlock, if_true, bind_eq_ok, raiseIf_eq_ok, exists_const,
        pure_eq_ok]
      exact ⟨_, one.hash_ok, by rw [genesis_eq, ← named]; simp [Chain.tip], trivial⟩
  | @accept accepted chain block update before outcome ih =>
      obtain ⟨added, newOk, items, blockEq, -, -⟩ := before.reachable.refines.addBlock_ok outcome
      rw [items] at decoded
      obtain ⟨front, row, rfl, decodedFront, one⟩ := forall₂_concat_left decoded
      apply replayRows_concat (ih decodedFront)
      have stored : (chain.addBlock block).2.entries.get? added.record.blockHash = some added :=
        Dict.get?_eq_some.mpr (by rw [items]; simp)
      obtain ⟨hash, parent, path, branch, next, -, -, -, -, made⟩ :=
        before.reachable.refines.newEntry_eq_ok.mp newOk
      have named : row.parentHash = some block.header.previousBlockHash := by
        rw [one.parent_eq, made]
        rfl
      have run : chain.addBlock block = (.ok update, (chain.addBlock block).2) :=
        Prod.ext outcome rfl
      have height := one.height_eq
      have recordOk := @checkRecord_eq _ storage _ _ row check one stored
      have blockOk := one.block_eq
      dsimp only at height recordOk blockOk
      rw [blockEq] at height recordOk blockOk
      simp only [SQLiteChainStorage.replayRow, blockOk, ok_bind, bind_eq_ok, raiseIf_eq_ok,
        exists_const, pure_eq_ok]
      refine ⟨by simpa using named, _, height, by simp, _, ?_, _, recordOk, rfl⟩
      rw [SQLiteChainStorage.replayBlock, if_neg (by simp), run]
  | @reject accepted chain block e before outcome ih =>
      rw [before.reachable.refines.addBlock_error outcome] at decoded ⊢
      exact ih decoded

/-! ## The derived tables -/

/-- The canonical index is in the order of the heights. -/
theorem canonicalRows_eq {tables : Tables} {blocks : List Block} {branch : BranchState}
    (run : Replays testnet blocks branch)
    (written : blocks.mapM canonicalValues = .ok tables.canonicalChain) :
    tables.canonicalRows = tables.canonicalChain := by
  apply List.Pairwise.insertionSort_eq
  exact (run.canonical_ascending written).imp fun less => less.le

theorem checkCanonical_eq {blocks : List Block} {rows : List CanonicalRow}
    (written : List.Forall₂ (fun block row => canonicalValues block = .ok row) blocks rows) :
    SQLiteChainStorage.checkCanonical rows blocks = .ok () := by
  induction written with
  | nil => rfl
  | cons one rest ih =>
      simp only [canonicalValues, bind_eq_ok, pure_eq_ok] at one
      obtain ⟨height, heightOk, hash, hashOk, rfl⟩ := one
      have length := BlockHeader.length_blockHash hashOk
      have exact_ok : exactBlob hash 32 "canonical block hash" = .ok hash :=
        exactBlob_eq_ok.mpr ⟨length, rfl⟩
      simp only [SQLiteChainStorage.checkCanonical, decodeStoredU64_eq heightOk, ok_bind, exact_ok,
        hashOk, ih]
      simp

omit [Platform] in
/-- The stored accounts are those of the snapshot. -/
theorem storedAccounts_eq {tables : Tables} {state : AccountState}
    (written : state.snapshot.accounts.mapM accountValues = .ok tables.accounts) :
    (tables.accountRows.mapM fun row => do
      let balance ← decodeStoredU64 row.balanceAtoms "account balance"
      let nonce ← decodeStoredU64 row.nonce "account nonce"
      let account ← rethrow (reraiseAs ErrorClass.isValueError .storageIntegrityError
        "stored account data is invalid") (Account.new balance nonce)
      return (row.address, account)) = .ok state.snapshot.accounts := by
  have related := mapM_eq_ok.mp written
  have addresses : state.snapshot.accounts.map Prod.fst = tables.accounts.map AccountRow.address := by
    apply map_eq_map_of_forall₂ related
    intro item row values
    simp only [accountValues, bind_eq_ok, pure_eq_ok] at values
    obtain ⟨_, -, _, -, rfl⟩ := values
    rfl
  have sorted : tables.accountRows = tables.accounts := by
    apply List.Pairwise.insertionSort_eq
    have inOrder := state.accounts.sortedItems_pairwise
    rw [← List.pairwise_map (f := AccountRow.address), ← addresses, List.pairwise_map]
    exact inOrder
  rw [sorted, mapM_eq_ok]
  apply List.Forall₂.flip
  apply related.imp
  intro item row values
  simp only [accountValues, bind_eq_ok, pure_eq_ok] at values
  obtain ⟨balance, balanceOk, nonce, nonceOk, rfl⟩ := values
  simp only [flip, decodeStoredU64_eq balanceOk, decodeStoredU64_eq nonceOk, ok_bind, bind_eq_ok,
    rethrow_eq_ok, pure_eq_ok]
  exact ⟨item.2, Account.new_eq_ok.mpr ⟨rfl, rfl⟩, rfl⟩

/-- The confirmed transactions that are stored are those of the active chain. -/
theorem mem_confirmedRows {blocks : List Block} {confirmed : List (List ConfirmedRow)}
    (written : confirmedRows blocks = .ok confirmed) {txid : Bytes} :
    txid ∈ confirmed.flatten.map ConfirmedRow.txid ↔
      ∃ tx ∈ branchTransactions blocks, tx.txid = .ok txid := by
  constructor
  · intro member
    obtain ⟨row, rowMem, rfl⟩ := List.mem_map.mp member
    obtain ⟨rows, rowsMem, inRows⟩ := List.mem_flatten.mp rowMem
    obtain ⟨block, blockMem, rowsOk⟩ := (mem_of_mapM_eq_ok written).mp rowsMem
    obtain ⟨tx, txMem, values⟩ := (mem_of_mapM_eq_ok rowsOk).mp inRows
    simp only [confirmedValues, bind_eq_ok, pure_eq_ok] at values
    obtain ⟨id, idOk, _, -, rfl⟩ := values
    exact ⟨tx, List.mem_flatMap.mpr ⟨block, blockMem, txMem⟩, idOk⟩
  · rintro ⟨tx, txMem, idOk⟩
    obtain ⟨block, blockMem, inBlock⟩ := List.mem_flatMap.mp txMem
    obtain ⟨rows, rowsOk, rowsMem⟩ := exists_of_mapM_eq_ok written block blockMem
    obtain ⟨row, values, rowMem⟩ := exists_of_mapM_eq_ok rowsOk tx inBlock
    simp only [confirmedValues, idOk, ok_bind, bind_eq_ok, pure_eq_ok] at values
    obtain ⟨_, -, rfl⟩ := values
    exact List.mem_map.mpr ⟨_, List.mem_flatten.mpr ⟨rows, rowsMem, rowMem⟩, rfl⟩

/-- The expected pairs of the confirmed transactions are those of their rows. -/
theorem confirmedPairs_eq {blocks : List Block} {confirmed : List (List ConfirmedRow)}
    (written : confirmedRows blocks = .ok confirmed) :
    (blocks.mapM fun block => block.transactions.mapM fun tx => do
      return (← tx.txid, ← block.blockHash)) =
        .ok (confirmed.map fun rows => rows.map fun row => (row.txid, row.blockHash)) := by
  apply mapM_of_mapM written
  intro block rows rowsOk
  apply mapM_of_mapM rowsOk
  intro tx row values
  simp only [confirmedValues, bind_eq_ok, pure_eq_ok] at values
  obtain ⟨id, idOk, hash, hashOk, rfl⟩ := values
  rw [idOk, ok_bind, hashOk]
  rfl

/-- **The check of the derived tables passes** on the chain that they were derived from. -/
theorem Derives.validateDerivedState_eq {storage : SQLiteChainStorage} {chain : Chain}
    (derives : Derives storage.tables chain) (refines : chain.Refines)
    (integrity : storage.tables.passesIntegrityCheck)
    (foreignKeys : storage.tables.passesForeignKeyCheck)
    (metadataOne : ∃ row, storage.tables.chainMetadata = [row]) :
    storage.validateDerivedState chain = .ok () := by
  obtain ⟨blocks, state, confirmed, blocksOk, stateOk, canonicalOk, confirmedOk, flat, accountsOk⟩ :=
    derives.exists_rows
  obtain ⟨-, -, blocksChecked, -, -, -, -, -, -, -, -, confirmedChecked, -⟩ := integrity
  obtain ⟨-, -, -, confirmedStored, -⟩ := foreignKeys
  obtain ⟨path, branch, ends⟩ := refines.exists_branch chain.tipEntry_stored
  have blocksEq := Chain.Reachable.activeChain_eq ends
  rw [blocksOk] at blocksEq
  cases blocksEq
  obtain ⟨restored, restoredOk, same⟩ := refines.restores ends
  rw [Chain.state, restoredOk] at stateOk
  cases stateOk
  obtain ⟨row, metadata⟩ := metadataOne
  obtain ⟨tipEq, supplyOk⟩ := derives.exists_metadata row (by rw [metadata]; simp)
  have tipLength : row.canonicalTipHash.length = 32 := by
    rw [tipEq]
    exact BlockHeader.length_blockHash ends.hash_ok
  have lengths := List.Forall₂.length_eq (mapM_eq_ok.mp canonicalOk)
  have ids : (storage.tables.confirmedTransactions.mapM fun row =>
      exactBlob row.txid 32 "confirmed transaction ID") =
        .ok (storage.tables.confirmedTransactions.map ConfirmedRow.txid) := by
    apply mapM_eq_map
    intro row member
    exact exactBlob_eq_ok.mpr ⟨confirmedChecked row member, rfl⟩
  have idsEq : (storage.tables.confirmedTransactions.map ConfirmedRow.txid).toFinset =
      state.snapshot.confirmedTxids := by
    ext id
    rw [List.mem_toFinset, flat, mem_confirmedRows confirmedOk, ← ends.replays.mem_confirmed,
      ← same.confirmedTxids_eq]
    rfl
  have hashLengths : ∀ row ∈ storage.tables.confirmedTransactions, row.blockHash.length = 32 := by
    intro row member
    obtain ⟨blockRow, blockMem, named⟩ := List.mem_map.mp (confirmedStored row member)
    rw [← named]
    exact (blocksChecked blockRow blockMem).1
  have pairs : (storage.tables.confirmedTransactions.mapM fun row => do
      return (← exactBlob row.txid 32 "confirmed transaction ID",
        ← exactBlob row.blockHash 32 "confirmed block hash")) =
        .ok (storage.tables.confirmedTransactions.map fun row => (row.txid, row.blockHash)) := by
    apply mapM_eq_map
    intro row member
    rw [exactBlob_eq_ok.mpr ⟨confirmedChecked row member, rfl⟩, ok_bind,
      exactBlob_eq_ok.mpr ⟨hashLengths row member, rfl⟩]
    rfl
  have stored : storage.storedState =
      .ok (state.snapshot.accounts, state.snapshot.confirmedTxids) := by
    rw [SQLiteChainStorage.storedState, storedAccounts_eq accountsOk, ok_bind, ids, ok_bind, idsEq]
    rfl
  simp only [SQLiteChainStorage.validateDerivedState, metadata, onlyMetadataRow, ok_bind,
    exactBlob_eq_ok.mpr ⟨tipLength, rfl⟩, decodeStoredU64_eq supplyOk, blocksOk,
    canonicalRows_eq ends.replays canonicalOk, checkCanonical_eq (mapM_eq_ok.mp canonicalOk), stored,
    Chain.state, restoredOk, pairs, confirmedPairs_eq confirmedOk]
  simp [tipEq, lengths, flat, List.map_flatten]

/-! ## Loading -/

omit [Platform] in
/-- A database that holds the identity of the network passes the identity check. -/
theorem validateIdentity_eq {storage : SQLiteChainStorage}
    (identity :
      storage.tables.chainMetadata.map (fun row => (row.schemaVersion, row.chainId, row.genesisHash)) =
        [(schemaVersion, testnet.chainId, genesisHash)])
    (network_eq : storage.network = testnet) (genesis_eq : storage.genesisHash = genesisHash)
    (isOpen : storage.closed = false) : storage.validateIdentity = .ok () := by
  obtain ⟨row, metadata⟩ := List.length_eq_one_iff.mp
    ((List.length_map _).symm.trans (congrArg List.length identity))
  rw [metadata] at identity
  simp only [List.map_cons, List.map_nil, List.cons.injEq, Prod.mk.injEq, and_true] at identity
  obtain ⟨version, chainId, genesis⟩ := identity
  have whole : exactBlob genesisHash 32 "metadata genesis hash" = .ok genesisHash :=
    exactBlob_eq_ok.mpr ⟨by decide, rfl⟩
  simp only [SQLiteChainStorage.validateIdentity, SQLiteChainStorage.ensureOpen, isOpen, metadata,
    onlyMetadataRow, ok_bind, version, chainId, genesis, network_eq, genesis_eq, whole]
  simp

/-- **A database loads** when SQLite's checks pass, its rows are decoded to the entries of a
chain, and its derived tables are those of the chain. -/
theorem Derives.loadChain_eq {storage : SQLiteChainStorage} {chain : Chain}
    (derives : Derives storage.tables chain) {accepted : List Block}
    (run : Chain.Run accepted chain) (network_eq : storage.network = testnet)
    (genesis_eq : storage.genesisHash = genesisHash) (isOpen : storage.closed = false)
    (integrity : storage.tables.passesIntegrityCheck)
    (foreignKeys : storage.tables.passesForeignKeyCheck)
    (identity :
      storage.tables.chainMetadata.map (fun row => (row.schemaVersion, row.chainId, row.genesisHash)) =
        [(schemaVersion, testnet.chainId, genesisHash)])
    (decoded : List.Forall₂ (Decoded storage.tables) chain.entries.items storage.tables.blockRows) :
    storage.loadChain = .ok chain := by
  have replayed : storage.replayBlocks true = .ok chain :=
    replayRows_eq run network_eq genesis_eq true decoded
  have checked : storage.validateSqliteIntegrity = .ok () := by
    simp [SQLiteChainStorage.validateSqliteIntegrity, integrity, foreignKeys]
  have metadataOne : ∃ row, storage.tables.chainMetadata = [row] :=
    List.length_eq_one_iff.mp ((List.length_map _).symm.trans (congrArg List.length identity))
  rw [SQLiteChainStorage.loadChain, SQLiteChainStorage.ensureOpen, isOpen,
    validateIdentity_eq identity network_eq genesis_eq isOpen, checked, replayed, ok_bind]
  simp only [ok_bind,
    derives.validateDerivedState_eq run.reachable.refines integrity foreignKeys metadataOne]
  simp

/-- **Loading a database that represents a chain gives that chain.** -/
theorem Represents.loadChain_eq {storage : SQLiteChainStorage} {chain : Chain}
    (represents : Represents storage.tables chain) {accepted : List Block}
    (run : Chain.Run accepted chain) (network_eq : storage.network = testnet)
    (genesis_eq : storage.genesisHash = genesisHash) (isOpen : storage.closed = false) :
    storage.loadChain = .ok chain := by
  obtain ⟨integrity, foreignKeys⟩ := represents.consistent.passes
  apply represents.derives.loadChain_eq run network_eq genesis_eq isOpen integrity foreignKeys
    represents.identity
  rw [represents.stores.blockRows_eq]
  exact represents.decoded run.reachable.refines

omit [Platform] in
/-- Every element of a list has a related one. -/
theorem exists_of_forall₂ {α β : Type} {R : α → β → Prop} {xs : List α} {ys : List β}
    (related : List.Forall₂ R xs ys) {x : α} (member : x ∈ xs) : ∃ y ∈ ys, R x y := by
  induction related with
  | nil => cases member
  | cons one rest ih =>
      rcases List.mem_cons.mp member with rfl | later
      · exact ⟨_, List.mem_cons_self, one⟩
      · obtain ⟨y, inRest, found⟩ := ih later
        exact ⟨y, List.mem_cons_of_mem _ inRest, found⟩

omit [Platform] in
/-- A unique key finds its row. -/
theorem find?_eq_of_nodup {α κ : Type} [DecidableEq κ] {key : α → κ} {k : κ} {row : α} :
    ∀ {rows : List α}, (rows.map key).Nodup → row ∈ rows → key row = k →
      (rows.find? fun other => key other = k) = some row
  | first :: rest, nodup, member, named => by
      rw [List.map_cons, List.nodup_cons] at nodup
      rw [List.find?_cons]
      rcases List.mem_cons.mp member with rfl | later
      · rw [decide_eq_true named]
      · have other : key first ≠ k := by
          rintro rfl
          exact nodup.1 (named ▸ List.mem_map_of_mem later)
        rw [decide_eq_false other]
        exact find?_eq_of_nodup nodup.2 later named

/-- **The canonical index finds the block of every height of the active chain.** -/
theorem Represents.getCanonicalBlockByHeight_eq {storage : SQLiteChainStorage} {chain : Chain}
    (represents : Represents storage.tables chain) (refines : chain.Refines)
    (isOpen : storage.closed = false) {blocks : List Block} (active : chain.activeChain = .ok blocks)
    {height : Nat} {block : Block} (found : blocks[height]? = some block) :
    storage.getCanonicalBlockByHeight height = .ok block := by
  obtain ⟨blocks', state, confirmed, blocksOk, -, canonicalOk, -⟩ := represents.derives.exists_rows
  rw [active] at blocksOk
  cases blocksOk
  obtain ⟨path, branch, ends⟩ := refines.exists_branch chain.tipEntry_stored
  rw [Chain.Reachable.activeChain_eq ends] at active
  cases active
  obtain ⟨inside, rfl⟩ := List.getElem?_eq_some_iff.mp found
  obtain ⟨length, each⟩ := List.forall₂_iff_get.mp (mapM_eq_ok.mp canonicalOk)
  -- The row of this height in the canonical index.
  have inside' : height < storage.tables.canonicalChain.length := length ▸ inside
  have values := each height inside inside'
  simp only [List.get_eq_getElem, canonicalValues, bind_eq_ok, pure_eq_ok] at values
  obtain ⟨encoded, encodedOk, hash, hashOk, row⟩ := values
  have split : pathBlocks path = (pathBlocks path).take height ++ (pathBlocks path)[height] ::
      (pathBlocks path).drop (height + 1) := by simp
  have position := ends.replays.height_eq split
  rw [List.length_take, Nat.min_eq_left inside.le] at position
  rw [position] at encodedOk
  have indexed : (storage.tables.canonicalChain.find? fun row => row.height = encoded) =
      some ⟨encoded, hash⟩ :=
    find?_eq_of_nodup represents.consistent.height_nodup (row ▸ List.getElem_mem inside') rfl
  -- The row of its block.
  have inPath : height < path.length := by
    rw [pathBlocks, List.length_map] at inside
    exact inside
  have stored : chain.entries.get? path[height].1 = some path[height].2 :=
    ends.lineage.find_of_mem (List.getElem_mem inPath)
  have blockEq : (pathBlocks path)[height] = path[height].2.block := by simp [pathBlocks]
  obtain ⟨blockRow, rowMem, decoded⟩ :=
    exists_of_forall₂ (represents.decoded refines) (Dict.get?_eq_some.mp stored)
  have sameHash : blockRow.blockHash = hash := by
    have named := decoded.hash_ok
    rw [← blockEq, hashOk] at named
    rw [decoded.hash_eq, Except.ok.inj named]
  have joined : storage.tables.blockRow? hash = some blockRow :=
    find?_eq_of_nodup represents.consistent.hash_nodup rowMem sameHash
  have range := (encodeUnsigned_eq_ok.mp encodedOk).1
  simp only [SQLiteChainStorage.getCanonicalBlockByHeight, SQLiteChainStorage.ensureOpen, isOpen,
    encodedOk, ok_bind, indexed, bind_eq_ok, raiseIf_eq_ok, exists_const]
  refine ⟨by simp, by simpa using range, ?_⟩
  have found : (do
      let canonical ← some (⟨encoded, hash⟩ : CanonicalRow)
      storage.tables.blockRow? canonical.blockHash) = some blockRow := joined
  rw [found, blockEq]
  exact decoded.block_eq

end OurCoin
