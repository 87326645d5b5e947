import OurCoin.Storage.Completion
import OurCoin.Storage.Restart
import OurCoin.Storage.Rows

/-!
# Loading detects every inconsistency

Whatever the tables hold, a database that loads is the one that persisting its blocks would
have written (`loadChain_detects`).

* `Holds tables chain` says that the tables hold the rows of a chain, in any order. It
  determines the contents (`Holds.sameContents`), and tables that represent a chain hold it
  (`Represents.holds`).
* The replay accepts only rows that are decoded to the entries of the replayed chain
  (`replayRows_eq_ok`), and each column of such a row is pinned by a check
  (`Decoded.blockValues_eq`).
* No row of a transaction is left over: `PRAGMA foreign_key_check` gives each one a stored
  block, and that block accounts for it (`flatten_filter_perm`).
* The derived tables are compared with the replayed chain (`Holds.of_loadChain`).
-/

set_option autoImplicit false

namespace OurCoin

open Raising Transactions

/-! ## Contents -/

/-- The tables hold the same rows. The numbers in the column `acceptance_order` only order
the blocks, and the other tables have no order. -/
structure Tables.SameContents (first second : Tables) : Prop where
  blocks : first.blockRows.map (fun row => { row with acceptanceOrder := 0 }) =
    second.blockRows.map fun row => { row with acceptanceOrder := 0 }
  blockTransactions : first.blockTransactions.Perm second.blockTransactions
  canonicalChain : first.canonicalChain.Perm second.canonicalChain
  accounts : first.accounts.Perm second.accounts
  confirmedTransactions : first.confirmedTransactions.Perm second.confirmedTransactions
  chainMetadata : first.chainMetadata = second.chainMetadata

/-- Rows that are selected by their key, key by key, are all rows when every key is among
the given ones. -/
theorem flatten_filter_perm {α κ : Type} [DecidableEq κ] {key : α → κ} {select : κ → List α} :
    ∀ {keys : List κ} {rows : List α}, keys.Nodup → (∀ row ∈ rows, key row ∈ keys) →
      (∀ k ∈ keys, (select k).Perm (rows.filter fun row => key row = k)) →
      (keys.map select).flatten.Perm rows
  | [], rows, _, within, _ => by
      have none : rows = [] := List.eq_nil_iff_forall_not_mem.mpr fun row member => by
        cases within row member
      rw [none]
      exact .nil
  | k :: keys, rows, nodup, within, selected => by
      rw [List.nodup_cons] at nodup
      have others : (keys.map select).flatten.Perm (rows.filter fun row => ¬ key row = k) := by
        apply flatten_filter_perm nodup.2
        · intro row member
          rw [List.mem_filter, decide_eq_true_eq] at member
          rcases List.mem_cons.mp (within row member.1) with same | later
          · exact absurd same member.2
          · exact later
        · intro k' later
          have kept : (rows.filter fun row => ¬ key row = k).filter (fun row => key row = k') =
              rows.filter fun row => key row = k' := by
            rw [List.filter_filter]
            apply List.filter_congr
            intro row _
            have apart : key row = k' → ¬ key row = k := by
              rintro named rfl
              exact nodup.1 (named ▸ later)
            simpa using apart
          rw [kept]
          exact selected k' (List.mem_cons_of_mem _ later)
      rw [List.map_cons, List.flatten_cons]
      refine ((selected k List.mem_cons_self).append others).trans ?_
      have split := List.filter_append_perm (fun row => decide (key row = k)) rows
      simpa using split

variable [Platform]

/-- **The tables hold the rows of the chain**, in any order. -/
structure Holds (tables : Tables) (chain : Chain) : Prop where
  block_rows : chain.entries.items.mapM
    (fun item => blockValues item.1 item.2.block item.2.record) =
      .ok (tables.blockRows.map fun row => { row with acceptanceOrder := 0 })
  exists_bodies : ∃ bodies,
    chain.entries.items.mapM (fun item => bodyRows item.1 0 item.2.block.transactions) =
      .ok bodies ∧ tables.blockTransactions.Perm bodies.flatten
  exists_derived : ∃ blocks state canonical confirmed accounts, chain.activeChain = .ok blocks ∧
    chain.state = .ok state ∧ blocks.mapM canonicalValues = .ok canonical ∧
    confirmedRows blocks = .ok confirmed ∧
    state.snapshot.accounts.mapM accountValues = .ok accounts ∧
    tables.canonicalChain.Perm canonical ∧
    tables.confirmedTransactions.Perm confirmed.flatten ∧ tables.accounts.Perm accounts
  exists_metadata : ∃ supply, encodeU64 chain.totalSupplyAtoms = .ok supply ∧
    tables.chainMetadata =
      [⟨schemaVersion, testnet.chainId, genesisHash, chain.activeTipHash, supply⟩]

variable {tables : Tables} {chain : Chain}

/-- **A chain determines the contents of its tables.** -/
theorem Holds.sameContents {tables' : Tables} (holds : Holds tables chain)
    (holds' : Holds tables' chain) : tables.SameContents tables' := by
  obtain ⟨bodies, bodiesOk, bodiesEq⟩ := holds.exists_bodies
  obtain ⟨bodies', bodiesOk', bodiesEq'⟩ := holds'.exists_bodies
  obtain ⟨blocks, state, canonical, confirmed, accounts, blocksOk, stateOk, canonicalOk, confirmedOk,
    accountsOk, canonicalEq, confirmedEq, accountsEq⟩ := holds.exists_derived
  obtain ⟨blocks', state', canonical', confirmed', accounts', blocksOk', stateOk', canonicalOk',
    confirmedOk', accountsOk', canonicalEq', confirmedEq', accountsEq'⟩ := holds'.exists_derived
  obtain ⟨supply, supplyOk, metadataEq⟩ := holds.exists_metadata
  obtain ⟨supply', supplyOk', metadataEq'⟩ := holds'.exists_metadata
  obtain rfl : bodies = bodies' := Except.ok.inj (bodiesOk.symm.trans bodiesOk')
  obtain rfl : blocks = blocks' := Except.ok.inj (blocksOk.symm.trans blocksOk')
  obtain rfl : state = state' := Except.ok.inj (stateOk.symm.trans stateOk')
  obtain rfl : canonical = canonical' := Except.ok.inj (canonicalOk.symm.trans canonicalOk')
  obtain rfl : confirmed = confirmed' := Except.ok.inj (confirmedOk.symm.trans confirmedOk')
  obtain rfl : accounts = accounts' := Except.ok.inj (accountsOk.symm.trans accountsOk')
  obtain rfl : supply = supply' := Except.ok.inj (supplyOk.symm.trans supplyOk')
  exact {
    blocks := Except.ok.inj (holds.block_rows.symm.trans holds'.block_rows)
    blockTransactions := bodiesEq.trans bodiesEq'.symm
    canonicalChain := canonicalEq.trans canonicalEq'.symm
    accounts := accountsEq.trans accountsEq'.symm
    confirmedTransactions := confirmedEq.trans confirmedEq'.symm
    chainMetadata := metadataEq.trans metadataEq'.symm }

/-- Tables that represent a chain hold its rows. -/
theorem Represents.holds (represents : Represents tables chain) : Holds tables chain := by
  obtain ⟨bodies, bodiesOk, flat⟩ := represents.stores.exists_bodies
  obtain ⟨blocks, state, confirmed, blocksOk, stateOk, canonicalOk, confirmedOk, confirmedEq,
    accountsOk⟩ := represents.derives.exists_rows
  obtain ⟨row, metadata⟩ := List.length_eq_one_iff.mp
    ((List.length_map _).symm.trans (congrArg List.length represents.identity))
  obtain ⟨tipEq, supplyOk⟩ := represents.derives.exists_metadata row (by rw [metadata]; simp)
  have identity := represents.identity
  rw [metadata] at identity
  simp only [List.map_cons, List.map_nil, List.cons.injEq, Prod.mk.injEq, and_true] at identity
  obtain ⟨version, chainId, genesis⟩ := identity
  refine ⟨?_, ⟨bodies, bodiesOk, .of_eq flat⟩, ?_, row.issuedSupplyAtoms, supplyOk, ?_⟩
  · rw [represents.stores.blockRows_eq]
    exact represents.stores.block_rows
  · exact ⟨blocks, state, tables.canonicalChain, confirmed, tables.accounts, blocksOk, stateOk,
      canonicalOk, confirmedOk, accountsOk, .refl _, .of_eq confirmedEq, .refl _⟩
  · rw [metadata, ← version, ← chainId, ← genesis, ← tipEq]

/-! ## The replay -/

/-- The row of an entry holds its values. -/
theorem Decoded.blockValues_eq {item : Bytes × ChainEntry} {row : BlockRow}
    (decoded : Decoded tables item row) :
    blockValues item.1 item.2.block item.2.record = .ok { row with acceptanceOrder := 0 } := by
  rw [← decoded.hash_eq]
  exact blockValues_of_decoded (.of_decodeBlockRow decoded.block_eq) decoded.record_eq

/-- The rows of the transactions of an entry are those of its body. -/
theorem Decoded.bodyRows_eq {item : Bytes × ChainEntry} {row : BlockRow}
    (decoded : Decoded tables item row) :
    bodyRows item.1 0 item.2.block.transactions = .ok (tables.transactionRows item.1) := by
  rw [← decoded.hash_eq]
  exact (HoldsBlock.of_decodeBlockRow decoded.block_eq).body_ok

/-- What a replay has found out about a row: the block of the entry, and with the check of
the records also the record. -/
def Replayed (check : Bool) (tables : Tables) (item : Bytes × ChainEntry) (row : BlockRow) : Prop :=
  RawDecoded tables item row ∧ (check = true → recordFromRow row = .ok item.2.record)

/-- **A round that accepts a row** has decoded it to the entry that the chain then has
under its hash, and has added its block. -/
theorem replayRow_eq_ok {storage : SQLiteChainStorage} {check isFirst : Bool} {grown : Chain}
    {row : BlockRow} (replayed : storage.replayRow check isFirst chain row = .ok grown) :
    ∃ block, storage.replayBlock isFirst chain block = .ok grown ∧
      block.blockHash = .ok row.blockHash ∧
      ∀ entry, grown.entries.get? row.blockHash = some entry → entry.block = block →
        entry.record.parentHash =
          (if isFirst = true then none else some block.header.previousBlockHash) →
        Replayed check storage.tables (row.blockHash, entry) row := by
  simp only [SQLiteChainStorage.replayRow, bind_eq_ok, raiseIf_eq_ok, exists_const, pure_eq_ok,
    not_not] at replayed
  obtain ⟨block, blockOk, parent, height, heightOk, rfl, after, added, _, checked, rfl⟩ := replayed
  have hashOk := (HoldsBlock.of_decodeBlockRow blockOk).hash_ok
  refine ⟨block, added, hashOk, ?_⟩
  rintro entry stored rfl named
  refine ⟨⟨blockOk, parent.trans named.symm, heightOk, rfl, hashOk⟩, ?_⟩
  rintro rfl
  have storedOk : after.getRecord row.blockHash = .ok entry.record := by
    rw [Chain.getRecord, Chain.entryOf_eq_ok.mpr stored]
    rfl
  simp only [SQLiteChainStorage.checkRecord, if_true, hashOk, ok_bind, storedOk, bind_eq_ok,
    raiseIf_eq_ok, not_not] at checked
  obtain ⟨record, recordOk, rfl⟩ := checked
  exact recordOk

/-- The chain that was fed blocks has accepted them. -/
theorem Chain.Run.of_fed {blocks : List Block} (fed : Chain.fed blocks = .ok chain) :
    Chain.Run blocks chain := by
  simp only [Chain.fed, Chain.addBlocks, bind_eq_ok] at fed
  obtain ⟨initial, started, folded⟩ := fed
  refine @foldlM_invariant _ _ _ _ (fun done chain => Chain.Run done chain) ?_ _ _ _ (.init started)
    folded
  intro done chain block grown before next
  cases outcome : chain.addBlock block with
  | mk result after =>
      rw [outcome] at next
      cases result with
      | error e => cases next
      | ok update =>
          cases next
          have longer := before.accept (congrArg Prod.fst outcome)
          rwa [outcome] at longer

/-- The first round checks the genesis block and keeps the initial chain. -/
theorem replayRow_first {data : Tables} {check : Bool} {initial root : Chain} {row : BlockRow}
    (started : Chain.init testnet = .ok initial)
    (replayed : (SQLiteChainStorage.onTables data).replayRow check true initial row = .ok root) :
    root = initial ∧ List.Forall₂ (Replayed check data) initial.entries.items [row] := by
  obtain ⟨block, added, hashOk, isDecoded⟩ := replayRow_eq_ok replayed
  simp only [SQLiteChainStorage.replayBlock, if_true, bind_eq_ok, raiseIf_eq_ok, exists_const,
    pure_eq_ok, not_or, not_not] at added
  obtain ⟨hash, hashOk', ⟨rfl, rfl⟩, rfl⟩ := added
  obtain ⟨items, tipEq, parentNone⟩ := init_facts started
  obtain named : row.blockHash = genesisHash := Except.ok.inj (hashOk.symm.trans hashOk')
  have stored : initial.entries.get? row.blockHash = some initial.tipEntry := by
    rw [named, ← tipEq]
    exact initial.tipEntry_stored
  refine ⟨rfl, ?_⟩
  rw [items, tipEq, ← named]
  exact .cons (isDecoded _ stored rfl parentNone) .nil

/-- A later round adds one block, and its row is decoded to the added entry. -/
theorem replayRow_later {data : Tables} {check : Bool} {grown : Chain} {row : BlockRow}
    (refines : chain.Refines)
    (replayed : (SQLiteChainStorage.onTables data).replayRow check false chain row = .ok grown) :
    ∃ block update added, chain.addBlock block = (.ok update, grown) ∧
      grown.entries.items = chain.entries.items ++ [added] ∧ Replayed check data added row := by
  obtain ⟨block, added, hashOk, isDecoded⟩ := replayRow_eq_ok replayed
  rw [SQLiteChainStorage.replayBlock, if_neg (by simp)] at added
  have refines' := refines.addBlock block
  cases outcome : chain.addBlock block with
  | mk result after =>
      rw [outcome] at added refines'
      cases result with
      | error e => cases added
      | ok update =>
          cases added
          obtain ⟨entry, newOk, items, blockEq, -⟩ :=
            refines.addBlock_ok (congrArg Prod.fst outcome)
          rw [outcome] at items
          dsimp only at items refines'
          obtain ⟨hash, parent, path, branch, next, -, -, -, -, made⟩ :=
            refines.newEntry_eq_ok.mp newOk
          have parentEq : entry.record.parentHash = some block.header.previousBlockHash := by
            rw [made]
            rfl
          have stored : grown.entries.get? entry.record.blockHash = some entry :=
            Dict.get?_eq_some.mpr (by rw [items]; simp)
          have named := refines'.blockHash_ok stored
          rw [blockEq, hashOk, Except.ok.injEq] at named
          rw [← named] at stored
          refine ⟨block, update, _, outcome, items, ?_⟩
          rw [← named]
          exact isDecoded entry stored blockEq parentEq

/-- **The replay accepts only rows that are decoded to the entries of its chain**, which
was fed their blocks. -/
theorem replayRows_eq_ok {data : Tables} {check : Bool} {rows : List BlockRow}
    (replayed : (SQLiteChainStorage.onTables data).replayRows check rows = .ok chain) :
    ∃ blocks, Chain.fed blocks = .ok chain ∧
      List.Forall₂ (Replayed check data) chain.entries.items rows := by
  cases rows with
  | nil => cases replayed
  | cons first rest =>
      simp only [SQLiteChainStorage.replayRows, bind_eq_ok] at replayed
      obtain ⟨initial, started, root, rootOk, folded⟩ := replayed
      change Chain.init testnet = .ok initial at started
      obtain ⟨rfl, firstDecoded⟩ := replayRow_first started rootOk
      refine @foldlM_invariant _ _ _ _ (fun done chain => ∃ blocks, Chain.fed blocks = .ok chain ∧
        List.Forall₂ (Replayed check data) chain.entries.items (first :: done)) ?_ _ _ _ ?_ folded
      · rintro done chain row grown ⟨blocks, fed, decoded⟩ next
        obtain ⟨block, update, added, outcome, items, isDecoded⟩ :=
          replayRow_later (Chain.Run.of_fed fed).reachable.refines next
        refine ⟨blocks ++ [block], Chain.fed_concat fed outcome, ?_⟩
        rw [items, ← List.cons_append]
        exact List.rel_append decoded (.cons isDecoded .nil)
      · refine ⟨[], ?_, firstDecoded⟩
        rw [Chain.fed, started]
        rfl

/-! ## The derived tables -/

/-- What the checks of SQLite and of the identity leave of a database that loads. -/
theorem loadChain_eq_ok {data : Tables} (loaded : (SQLiteChainStorage.onTables data).loadChain = .ok chain) :
    (∃ row, data.chainMetadata = [row] ∧ row.schemaVersion = schemaVersion ∧
      row.chainId = testnet.chainId ∧ row.genesisHash = genesisHash) ∧
    data.passesIntegrityCheck ∧ data.passesForeignKeyCheck ∧
    (SQLiteChainStorage.onTables data).replayRows true data.blockRows = .ok chain ∧
    (SQLiteChainStorage.onTables data).validateDerivedState chain = .ok () := by
  simp only [SQLiteChainStorage.loadChain, SQLiteChainStorage.validateIdentity,
    SQLiteChainStorage.validateSqliteIntegrity, SQLiteChainStorage.replayBlocks, bind_eq_ok,
    raiseIf_eq_ok, exists_const, exactBlob_eq_ok, pure_eq_ok, not_not] at loaded
  obtain ⟨-, -, ⟨-, -, row, rowOk, version, chainId, genesis, ⟨-, rfl⟩, genesisEq⟩, ⟨integrity, keys⟩,
    _, replayed, _, derived, rfl⟩ := loaded
  refine ⟨⟨row, ?_, version, chainId, genesisEq⟩, integrity, keys, replayed, derived⟩
  unfold onlyMetadataRow at rowOk
  split at rowOk
  · rename_i only
    cases rowOk
    exact only
  · cases rowOk

omit [Platform] in
/-- The rows are known from the decoded IDs. -/
theorem ids_eq {rows : List ConfirmedRow} {stored : List Bytes}
    (decoded : (rows.mapM fun row => exactBlob row.txid 32 "confirmed transaction ID") = .ok stored) :
    stored = rows.map ConfirmedRow.txid :=
  eq_map_of_mapM_eq_ok decoded fun _ _ one => (exactBlob_eq_ok.mp one).2.symm

omit [Platform] in
theorem pairs_eq {rows : List ConfirmedRow} {stored : List (Bytes × Bytes)}
    (decoded : (rows.mapM fun row => do
      return (← exactBlob row.txid 32 "confirmed transaction ID",
        ← exactBlob row.blockHash 32 "confirmed block hash")) = .ok stored) :
    stored = rows.map fun row => (row.txid, row.blockHash) := by
  apply eq_map_of_mapM_eq_ok decoded
  intro row pair one
  simp only [bind_eq_ok, exactBlob_eq_ok, pure_eq_ok] at one
  obtain ⟨_, ⟨-, rfl⟩, _, ⟨-, rfl⟩, rfl⟩ := one
  rfl

omit [Platform] in
theorem accounts_written {rows : List AccountRow} {accounts : List (Text × Account)}
    (decoded : (rows.mapM fun row => do
      let balance ← decodeStoredU64 row.balanceAtoms "account balance"
      let nonce ← decodeStoredU64 row.nonce "account nonce"
      let account ← rethrow (reraiseAs ErrorClass.isValueError .storageIntegrityError
        "stored account data is invalid") (Account.new balance nonce)
      return (row.address, account)) = .ok accounts) : accounts.mapM accountValues = .ok rows := by
  rw [mapM_eq_ok] at decoded ⊢
  exact decoded.flip.imp fun item row one => accountValues_of_decoded one

/-- **What the check of the derived tables accepts**: each column holds what the replayed
chain derives. -/
theorem validateDerivedState_eq_ok {data : Tables} {row : MetadataRow}
    (metadata : data.chainMetadata = [row])
    (derived : (SQLiteChainStorage.onTables data).validateDerivedState chain = .ok ()) :
    row.canonicalTipHash = chain.activeTipHash ∧
    encodeU64 chain.totalSupplyAtoms = .ok row.issuedSupplyAtoms ∧
    ∃ blocks state pairs, chain.activeChain = .ok blocks ∧ chain.state = .ok state ∧
      blocks.mapM canonicalValues = .ok data.canonicalRows ∧
      state.snapshot.accounts.mapM accountValues = .ok data.accountRows ∧
      (blocks.mapM fun block => block.transactions.mapM fun tx => do
        return (← tx.txid, ← block.blockHash)) = .ok pairs ∧
      (data.confirmedTransactions.map fun row => (row.txid, row.blockHash)).toFinset =
        pairs.flatten.toFinset := by
  have tablesEq : (SQLiteChainStorage.onTables data).tables = data := rfl
  simp only [SQLiteChainStorage.validateDerivedState, SQLiteChainStorage.storedState, tablesEq,
    metadata, onlyMetadataRow, bind_eq_ok, raiseIf_eq_ok, exists_const, exactBlob_eq_ok, pure_eq_ok,
    not_or, not_not] at derived
  obtain ⟨_, ⟨⟩, _, ⟨-, rfl⟩, tipEq, supply, supplyOk, rfl, blocks, blocksOk, lengths, _, checked, _,
    ⟨accounts, accountsOk, _, -, rfl⟩, state, stateOk, ⟨rfl, -⟩, stored, storedOk, pairs, pairsOk,
    same⟩ := derived
  refine ⟨tipEq, encodeU64_of_decodeStoredU64 supplyOk, blocks, state, pairs, blocksOk, stateOk,
    canonicalValues_of_checkCanonical checked lengths, ?_, pairsOk, ?_⟩
  · exact accounts_written accountsOk
  · rw [← pairs_eq storedOk]
    exact same

omit [Platform] in
/-- Rows with the same pairs are the same rows. -/
theorem confirmed_perm {rows rows' : List ConfirmedRow} (nodup : (rows.map ConfirmedRow.txid).Nodup)
    (nodup' : (rows'.map ConfirmedRow.txid).Nodup)
    (same : (rows.map fun row => (row.txid, row.blockHash)).toFinset =
      (rows'.map fun row => (row.txid, row.blockHash)).toFinset) : rows.Perm rows' := by
  have distinct : ∀ {rows : List ConfirmedRow}, (rows.map ConfirmedRow.txid).Nodup →
      (rows.map fun row => (row.txid, row.blockHash)).Nodup := by
    intro rows nodup
    apply List.Nodup.of_map Prod.fst
    rw [List.map_map]
    exact nodup
  have pairs := List.perm_of_nodup_nodup_toFinset_eq (distinct nodup) (distinct nodup') same
  have back : ∀ rows : List ConfirmedRow, (rows.map fun row => (row.txid, row.blockHash)).map
      (fun pair => ConfirmedRow.mk pair.1 pair.2) = rows := by
    intro rows
    rw [List.map_map]
    exact List.map_id rows
  have rebuilt := pairs.map fun pair => ConfirmedRow.mk pair.1 pair.2
  rwa [back, back] at rebuilt

/-- **A database that loads holds the rows of its chain**, which was fed its blocks. -/
theorem Holds.of_loadChain {data : Tables}
    (loaded : (SQLiteChainStorage.onTables data).loadChain = .ok chain) :
    Holds data chain ∧ ∃ blocks, Chain.fed blocks = .ok chain ∧
      List.Forall₂ (Decoded data) chain.entries.items data.blockRows := by
  obtain ⟨⟨row, metadata, version, chainId, genesis⟩, integrity, keys, replayed, derived⟩ :=
    loadChain_eq_ok loaded
  obtain ⟨blocks, fed, replayedRows⟩ := replayRows_eq_ok replayed
  have decoded := replayedRows.imp fun item row found => found.1.decoded (found.2 rfl)
  have refines := (Chain.Run.of_fed fed).reachable.refines
  obtain ⟨tipEq, supplyOk, active, state, pairs, activeOk, stateOk, canonicalOk, accountsOk, pairsOk,
    same⟩ := validateDerivedState_eq_ok metadata derived
  refine ⟨⟨?_, ?_, ?_, ?_⟩, blocks, fed, decoded⟩
  · rw [mapM_eq_ok, List.forall₂_map_right_iff]
    exact decoded.imp fun item row isDecoded => isDecoded.blockValues_eq
  · -- Every transaction row names a stored block, and the hashes of the blocks are distinct.
    refine ⟨chain.entries.items.map fun item => data.transactionRows item.1, ?_, ?_⟩
    · rw [mapM_eq_ok, List.forall₂_map_right_iff, List.forall₂_same]
      intro item member
      obtain ⟨row, -, isDecoded⟩ := exists_of_forall₂ decoded member
      exact isDecoded.bodyRows_eq
    · have hashes : chain.entries.items.map Prod.fst = data.blockRows.map BlockRow.blockHash :=
        map_eq_map_of_forall₂ decoded fun _ _ isDecoded => isDecoded.hash_eq.symm
      have within : ∀ row ∈ data.blockTransactions,
          row.blockHash ∈ chain.entries.items.map Prod.fst := by
        intro row member
        rw [hashes, Tables.blockRows,
          ((List.perm_insertionSort _ data.blocks).map BlockRow.blockHash).mem_iff]
        exact keys.2.1 row member
      have all := @flatten_filter_perm _ _ _ TransactionRow.blockHash data.transactionRows _ _
        chain.entries.nodupKeys within fun hash _ => List.perm_insertionSort _ _
      rw [List.map_map] at all
      exact all.symm
  · obtain ⟨path, branch, ends⟩ := refines.exists_branch chain.tipEntry_stored
    have activeEq := Chain.Reachable.activeChain_eq ends
    rw [activeOk, Except.ok.injEq] at activeEq
    subst activeEq
    obtain ⟨confirmed, confirmedOk, txids⟩ := refines.exists_confirmedRows ends
    rw [confirmedPairs_eq confirmedOk, Except.ok.injEq] at pairsOk
    subst pairsOk
    refine ⟨_, state, data.canonicalRows, confirmed, data.accountRows, activeOk, stateOk, canonicalOk,
      confirmedOk, accountsOk, (List.perm_insertionSort _ _).symm, ?_,
      (List.perm_insertionSort _ _).symm⟩
    apply confirmed_perm integrity.2.2.2.2.2.2.2.2.2.2.1 txids
    rw [same, List.map_flatten]
  · exact ⟨row.issuedSupplyAtoms, supplyOk, by rw [metadata, ← version, ← chainId, ← genesis, ← tipEq]⟩

/-! ## Writing the same blocks -/

/-- A new database into which the given blocks are accepted and persisted one by one. -/
def writeBlocks (blocks : List Block) : Except Raised (Chain × SQLiteChainStorage) := do
  let chain ← Chain.init testnet
  let storage ← SQLiteChainStorage.openFresh testnet
  blocks.foldlM (fun (chain, storage) block =>
    match chain.addBlock block with
    | (.error e, _) => .error e
    | (.ok update, grown) =>
      match storage.persistChainUpdate grown update [] with
      | (.error e, _) => .error e
      | (.ok _, after) => .ok (grown, after)) (chain, storage)

/-- Blocks that a chain was fed can be persisted one by one. -/
theorem exists_writeBlocks {blocks : List Block} (fed : Chain.fed blocks = .ok chain) :
    ∃ data, writeBlocks blocks = .ok (chain, .onTables data) ∧ Represents data chain := by
  obtain ⟨fresh, opened, started⟩ := exists_openFresh
  simp only [Chain.fed, Chain.addBlocks, bind_eq_ok, Chain.init_testnet, Except.ok.injEq,
    exists_eq_left'] at fed
  obtain ⟨reachable, data, written, represents⟩ : chain.Reachable ∧
      ∃ data, writeBlocks blocks = .ok (chain, .onTables data) ∧ Represents data chain := by
    refine @foldlM_invariant _ _ _ _ (fun done chain => chain.Reachable ∧ ∃ data,
      writeBlocks done = .ok (chain, .onTables data) ∧ Represents data chain) ?_ _ _ _ ?_ fed
    · rintro done chain block grown ⟨reachable, data, written, represents⟩ next
      have reachable' := Chain.Reachable.addBlock block reachable
      cases outcome : chain.addBlock block with
      | mk result after =>
          rw [outcome] at next reachable'
          cases result with
          | error e => cases next
          | ok update =>
              cases next
              obtain ⟨inserted, data', persisted, represents'⟩ :=
                represents.exists_persist reachable outcome
              refine ⟨reachable', data', ?_, represents'⟩
              simp only [writeBlocks, bind_eq_ok, foldlM_concat_eq_ok] at written ⊢
              obtain ⟨initial, started, storage, created, folded⟩ := written
              refine ⟨initial, started, storage, created, _, folded, ?_⟩
              simp only [outcome, persisted]
    · refine ⟨.init Chain.init_testnet, fresh, ?_, started⟩
      rw [writeBlocks, Chain.init_testnet, ok_bind, opened]
      rfl
  exact ⟨data, written, represents⟩

/-- **Loading detects every inconsistency**: whatever the tables hold, a database that
loads has the chain of its blocks in the order of acceptance, and it holds exactly what
persisting these blocks in this order would have written. -/
theorem loadChain_detects {data : Tables}
    (loaded : (SQLiteChainStorage.onTables data).loadChain = .ok chain) :
    ∃ blocks, data.blockRows.mapM (decodeBlockRow data) = .ok (testnetGenesis :: blocks) ∧
      Chain.fed blocks = .ok chain ∧
      ∃ written, writeBlocks blocks = .ok (chain, .onTables written) ∧
        data.SameContents written := by
  obtain ⟨holds, blocks, fed, decoded⟩ := Holds.of_loadChain loaded
  obtain ⟨written, writtenOk, represents⟩ := exists_writeBlocks fed
  refine ⟨blocks, ?_, fed, written, writtenOk, holds.sameContents represents.holds⟩
  obtain ⟨genesis, defined, stored⟩ := (Chain.Run.of_fed fed).blocks_eq
  rw [genesisBlock_testnet, Except.ok.injEq] at defined
  subst defined
  rw [← stored, mapM_eq_ok, List.forall₂_map_right_iff]
  exact decoded.flip.imp fun row item isDecoded => isDecoded.block_eq

omit [Platform] in
/-- A database with the first block loads, and is the one that persisting the first block
would have written. -/
theorem loadChain_detects_first : ∃ data : Tables,
    (@SQLiteChainStorage.loadChain asciiPlatform (.onTables data)) = .ok firstChain ∧
    ∃ blocks, (data.blockRows.mapM (@decodeBlockRow asciiPlatform data)) =
        .ok (testnetGenesis :: blocks) ∧
      @Chain.fed asciiPlatform blocks = .ok firstChain ∧
      ∃ written, @writeBlocks asciiPlatform blocks = .ok (firstChain, .onTables written) ∧
        data.SameContents written := by
  obtain ⟨data, -, represents⟩ := @exists_writeBlocks asciiPlatform _ _ firstChain_fed
  have loaded := @Represents.loadChain_eq asciiPlatform (.onTables data) firstChain represents _
    (@Chain.Run.of_fed asciiPlatform _ _ firstChain_fed) rfl rfl rfl
  exact ⟨data, loaded, @loadChain_detects asciiPlatform _ _ loaded⟩

end OurCoin
