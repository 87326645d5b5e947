import OurCoin.Model.Snapshots
import OurCoin.Storage.Detection
import OurCoin.Storage.Growth

/-!
# Loading while other nodes write

`load_chain` reads the database with separate statements, and the transactions of other
nodes may commit between any two of them.

* On tables that nobody changes, the statements do what `loadChain` does
  (`loadChainReading_steady`).
* The blocks and their transactions are those of the moment at which `blocks` is selected,
  whatever is committed later (`replayBlocksReading_eq`), so the chain is that of this
  moment.
* The derived tables are selected later and compared with this chain (`Compares`).
  `Undisturbed` says that none of them was changed in between, and the load succeeds exactly
  then (`Interleaving.consistentLoad_iff`). One commit at the wrong moment makes it raise
  (`not_consistentLoad`).
-/

set_option autoImplicit false

namespace OurCoin

open Raising Reading

variable [Platform]

namespace SQLiteChainStorage

variable {storage : SQLiteChainStorage} {seen : Nat → Tables} {chain : Chain}

/-! ## Tables that nobody changes -/

theorem replayRestReading_steady (storage : SQLiteChainStorage) : ∀ (rows : List BlockRow)
    (chain : Chain), Steady (storage.replayRestReading chain rows) fun data =>
      rows.foldlM ((storage.seeing data).replayRow true false) chain
  | [], chain => .pure chain
  | _ :: rest, _ =>
      (Steady.compute _).bind fun grown => replayRestReading_steady storage rest grown

theorem replayBlocksReading_steady (storage : SQLiteChainStorage) :
    Steady storage.replayBlocksReading fun data => (storage.seeing data).replayBlocks true := by
  refine @Steady.bind _ _ _ _ _ _ _ (fun rows data => (storage.seeing data).replayRows true rows)
    (Steady.select Tables.blockRows) ?_
  rintro (_ | ⟨first, rest⟩)
  · exact .lift _
  · exact (Steady.lift _).bind fun initial => (Steady.compute _).bind fun root =>
      replayRestReading_steady storage rest root

omit [Platform] in
theorem storedStateReading_steady (storage : SQLiteChainStorage) :
    Steady storedStateReading fun data => (storage.seeing data).storedState :=
  (Steady.select _).bind fun _ => (Steady.lift _).bind fun _ => (Steady.select _).bind fun _ =>
    (Steady.lift _).bind fun _ => .pure _

theorem validateDerivedStateReading_steady (storage : SQLiteChainStorage) (chain : Chain) :
    Steady (validateDerivedStateReading chain) fun data =>
      (storage.seeing data).validateDerivedState chain := by
  refine Steady.congr ((Steady.compute _).bind fun _ => (Steady.lift _).bind fun _ =>
    (Steady.select _).bind fun _ => (Steady.lift _).bind fun _ => (Steady.lift _).bind fun _ =>
    (Steady.lift _).bind fun _ => (storedStateReading_steady storage).bind fun _ =>
    (Steady.lift _).bind fun _ => (Steady.lift _).bind fun _ => (Steady.select _).bind fun _ =>
    Steady.lift _) ?_
  intro data
  simp only [SQLiteChainStorage.validateDerivedState, bind_assoc]
  rfl

/-- **On tables that nobody changes, the statements load the chain.** -/
theorem loadChainReading_steady (storage : SQLiteChainStorage) :
    Steady storage.loadChainReading fun data => (storage.seeing data).loadChain := by
  refine Steady.congr ((Steady.lift _).bind fun _ => (Steady.compute _).bind fun _ =>
    (Steady.bind (Steady.compute _) fun _ => Steady.compute _).bind fun _ =>
    (replayBlocksReading_steady storage).bind fun chain =>
    (validateDerivedStateReading_steady storage chain).bind fun _ => .pure chain) ?_
  intro data
  rfl

/-! ## The replay -/

/-- A round of the replay reads only the transactions of its row. -/
theorem replayRow_congr {data data' : Tables} {check isFirst : Bool} {row : BlockRow}
    (same : data'.transactionRows row.blockHash = data.transactionRows row.blockHash) :
    (storage.seeing data').replayRow check isFirst chain row =
      (storage.seeing data).replayRow check isFirst chain row := by
  have decoded : decodeBlockRow data' row = decodeBlockRow data row := by
    rw [decodeBlockRow, decodeBlockRow, same]
  change (decodeBlockRow data' row >>= _) = (decodeBlockRow data row >>= _)
  rw [decoded]
  rfl

/-- The transactions of the rows stay as they were at a moment, from a later statement on. -/
def KeepsBodies (seen : Nat → Tables) (moment : Nat) (rows : List BlockRow) (index : Nat) : Prop :=
  ∀ row ∈ rows, ∀ later, index ≤ later →
    (seen later).transactionRows row.blockHash = (seen moment).transactionRows row.blockHash

omit [Platform] in
theorem KeepsBodies.tail {moment index : Nat} {row : BlockRow} {rest : List BlockRow}
    (kept : KeepsBodies seen moment (row :: rest) index) :
    KeepsBodies seen moment rest (index + 1) :=
  fun other member later after =>
    kept other (List.mem_cons_of_mem _ member) later (Nat.le_of_succ_le after)

theorem replayRestReading_eq {moment : Nat} : ∀ {rows : List BlockRow} {chain : Chain}
    {index : Nat}, KeepsBodies seen moment rows index →
      storage.replayRestReading chain rows seen index =
        (do
          let grown ← rows.foldlM ((storage.seeing (seen moment)).replayRow true false) chain
          return (grown, index + rows.length))
  | [], chain, index, _ => rfl
  | row :: rest, chain, index, kept => by
      have first := @replayRow_congr _ storage chain _ _ true false row
        (kept row List.mem_cons_self index le_rfl)
      have later := fun grown => @replayRestReading_eq moment rest grown (index + 1) kept.tail
      rw [replayRestReading, compute_bind, first, List.foldlM_cons, bind_assoc]
      congr 1
      funext grown
      rw [later grown, List.length_cons, Nat.add_assoc, Nat.add_comm 1]

/-- **The replay is that of the moment at which `blocks` was selected.** -/
theorem replayBlocksReading_eq {index : Nat}
    (kept : KeepsBodies seen index (seen index).blocks index) :
    storage.replayBlocksReading seen index =
      (do
        let chain ← (storage.seeing (seen index)).replayBlocks true
        return (chain, index + 1 + (seen index).blocks.length)) := by
  have length : (seen index).blockRows.length = (seen index).blocks.length :=
    (List.perm_insertionSort _ _).length_eq
  have sorted : KeepsBodies seen index (seen index).blockRows index :=
    fun row member => kept row ((List.mem_insertionSort _).mp member)
  change replayBlocksReading storage seen index =
    ((storage.seeing (seen index)).replayRows true (seen index).blockRows >>= _)
  rw [replayBlocksReading, select_bind, ← length]
  cases rows : (seen index).blockRows with
  | nil => rfl
  | cons first rest =>
      rw [rows] at sorted
      have root := fun initial => @replayRow_congr _ storage initial _ _ true true first
        (sorted first List.mem_cons_self (index + 1) (Nat.le_succ _))
      have later := fun grown => @replayRestReading_eq _ storage seen index rest grown
        (index + 1 + 1) fun row member later after =>
          sorted.tail row member later (Nat.le_of_succ_le after)
      dsimp only
      rw [lift_bind, replayRows, bind_assoc]
      congr 1
      funext initial
      rw [compute_bind, root, bind_assoc]
      congr 1
      funext chain
      rw [later chain, List.length_cons, Nat.add_assoc (index + 1), Nat.add_comm 1]

/-! ## The comparison -/

/-- What the five statements of `_validate_derived_state` must select for the chain to pass. -/
def Compares (chain : Chain) (metadata : List MetadataRow) (canonical : List CanonicalRow)
    (accounts : List AccountRow) (ids pairs : List ConfirmedRow) : Prop :=
  ∃ blocks state expected, chain.activeChain = .ok blocks ∧ chain.state = .ok state ∧
    (blocks.mapM fun block => block.transactions.mapM fun tx => do
      return (← tx.txid, ← block.blockHash)) = .ok expected ∧
    (∃ row, onlyMetadataRow metadata = .ok row ∧ row.canonicalTipHash.length = 32 ∧
      row.canonicalTipHash = chain.activeTipHash ∧
      decodeStoredU64 row.issuedSupplyAtoms "metadata issued supply" = .ok chain.totalSupplyAtoms) ∧
    (canonical.length = blocks.length ∧ checkCanonical canonical blocks = .ok ()) ∧
    (accounts.mapM fun row => do
      let balance ← decodeStoredU64 row.balanceAtoms "account balance"
      let nonce ← decodeStoredU64 row.nonce "account nonce"
      let account ← rethrow (reraiseAs ErrorClass.isValueError .storageIntegrityError
        "stored account data is invalid") (Account.new balance nonce)
      return (row.address, account)) = .ok state.snapshot.accounts ∧
    (∃ stored, (ids.mapM fun row => exactBlob row.txid 32 "confirmed transaction ID") = .ok stored ∧
      stored.toFinset = state.snapshot.confirmedTxids) ∧
    ∃ stored, (pairs.mapM fun row => do
      return (← exactBlob row.txid 32 "confirmed transaction ID",
        ← exactBlob row.blockHash 32 "confirmed block hash")) = .ok stored ∧
      stored.toFinset = expected.flatten.toFinset

theorem validateDerivedStateReading_eq_ok {index next : Nat} :
    validateDerivedStateReading chain seen index = .ok ((), next) ↔
      Compares chain (seen index).chainMetadata (seen (index + 1)).canonicalRows
        (seen (index + 2)).accountRows (seen (index + 3)).confirmedTransactions
        (seen (index + 4)).confirmedTransactions ∧ index + 5 = next := by
  simp only [validateDerivedStateReading, storedStateReading, Reading.bind_eq_ok, compute_eq_ok,
    lift_eq_ok, select_eq_ok, Reading.pure_eq_ok, Raising.bind_eq_ok, Raising.pure_eq_ok,
    raiseIf_eq_ok, exactBlob_eq_ok, exists_const, not_not, not_or, Compares]
  constructor
  · rintro ⟨row, _, ⟨rowOk, rfl⟩, _, ⟨⟨_, ⟨length, rfl⟩, tipEq, _, supplyOk, rfl⟩, rfl⟩, _, _,
      ⟨rfl, rfl⟩, blocks, _, ⟨blocksOk, rfl⟩, _, ⟨lengths, rfl⟩, _, _, ⟨checked, rfl⟩, _, _,
      ⟨_, _, ⟨rfl, rfl⟩, accounts, _, ⟨accountsOk, rfl⟩, _, _, ⟨rfl, rfl⟩, ids, _, ⟨idsOk, rfl⟩,
        rfl, rfl⟩, _, _, ⟨⟨state, stateOk, rfl⟩, rfl⟩, _, ⟨⟨rfl, idsEq⟩, rfl⟩, _, _, ⟨rfl, rfl⟩,
      ⟨pairs, pairsOk, expected, expectedOk, same⟩, rfl⟩
    exact ⟨⟨blocks, state, expected, blocksOk, stateOk, expectedOk, ⟨row, rowOk, length, tipEq,
      supplyOk⟩, ⟨lengths, checked⟩, accountsOk, ⟨ids, idsOk, idsEq⟩, pairs, pairsOk, same⟩, rfl⟩
  · rintro ⟨⟨blocks, state, expected, blocksOk, stateOk, expectedOk, ⟨row, rowOk, length, tipEq,
      supplyOk⟩, ⟨lengths, checked⟩, accountsOk, ⟨ids, idsOk, idsEq⟩, pairs, pairsOk, same⟩, rfl⟩
    exact ⟨row, _, ⟨rowOk, rfl⟩, _, ⟨⟨_, ⟨length, rfl⟩, tipEq, _, supplyOk, rfl⟩, rfl⟩, _, _,
      ⟨rfl, rfl⟩, blocks, _, ⟨blocksOk, rfl⟩, _, ⟨lengths, rfl⟩, (), _, ⟨checked, rfl⟩, _, _,
      ⟨_, _, ⟨rfl, rfl⟩, _, _, ⟨accountsOk, rfl⟩, _, _, ⟨rfl, rfl⟩, ids, _, ⟨idsOk, rfl⟩,
        rfl, rfl⟩, _, _, ⟨⟨state, stateOk, rfl⟩, rfl⟩, _, ⟨⟨rfl, idsEq⟩, rfl⟩, _, _, ⟨rfl, rfl⟩,
      ⟨pairs, pairsOk, expected, expectedOk, same⟩, rfl⟩

/-- A tip that is not the one of the chain is reported. -/
theorem validateDerivedStateReading_moved {index : Nat} {row : MetadataRow}
    (metadata : (seen index).chainMetadata = [row]) (length : row.canonicalTipHash.length = 32)
    (moved : row.canonicalTipHash ≠ chain.activeTipHash) :
    validateDerivedStateReading chain seen index =
      .error (storageIntegrityError "stored canonical tip differs from replay") := by
  rw [validateDerivedStateReading, compute_bind, metadata, onlyMetadataRow, ok_bind, lift_bind,
    exactBlob_eq_ok.mpr ⟨length, rfl⟩, ok_bind, raiseIf, if_pos moved]
  rfl

/-- On tables that nobody changes. -/
theorem validateDerivedState_iff {data : Tables} :
    (onTables data).validateDerivedState chain = .ok () ↔
      Compares chain data.chainMetadata data.canonicalRows data.accountRows
        data.confirmedTransactions data.confirmedTransactions := by
  have steady := validateDerivedStateReading_steady (onTables data) chain data 0
  change _ = (onTables data).validateDerivedState chain at steady
  rw [← steady, map_eq_ok]
  constructor
  · rintro ⟨⟨_, next⟩, run, -⟩
    exact (validateDerivedStateReading_eq_ok.mp run).1
  · intro compares
    exact ⟨((), 5), validateDerivedStateReading_eq_ok.mpr ⟨compares, rfl⟩, rfl⟩

/-! ## Interleavings -/

/-- The tables at the moments of the statements: valid, and changed only by calls of
`persist_chain_update`. -/
structure Interleaving (seen : Nat → Tables) : Prop where
  valid : ∀ moment, ∃ chain, (onTables (seen moment)).loadChain = .ok chain
  calls : ∀ moment, Relation.ReflTransGen Tables.Persists (seen moment) (seen (moment + 1))

/-- The load succeeds with the chain of a moment. -/
def ConsistentLoad (seen : Nat → Tables) : Prop :=
  ∃ chain next moment, (onTables (seen 0)).loadChainReading seen 0 = .ok (chain, next) ∧
    moment < next ∧ (onTables (seen moment)).loadChain = .ok chain

/-- The statement that selects `chain_metadata` for the comparison. It follows those of the
identity, of the two checks of SQLite, of `blocks`, and of the transactions of each block. -/
def comparison (seen : Nat → Tables) : Nat := 4 + (seen 3).blocks.length

/-- No derived table was changed between the selection of `blocks` and its own. -/
structure Undisturbed (seen : Nat → Tables) : Prop where
  metadata : (seen (comparison seen)).chainMetadata = (seen 3).chainMetadata
  canonical : (seen (comparison seen + 1)).canonicalRows = (seen 3).canonicalRows
  accounts : (seen (comparison seen + 2)).accountRows = (seen 3).accountRows
  ids : ((seen (comparison seen + 3)).confirmedTransactions.map ConfirmedRow.txid).toFinset =
    ((seen 3).confirmedTransactions.map ConfirmedRow.txid).toFinset
  pairs : ((seen (comparison seen + 4)).confirmedTransactions.map fun row =>
      (row.txid, row.blockHash)).toFinset =
    ((seen 3).confirmedTransactions.map fun row => (row.txid, row.blockHash)).toFinset

namespace Interleaving

theorem extendsLater (interleaving : Interleaving seen) {moment later : Nat} (after : moment ≤ later) :
    (seen moment).Extends (seen later) := by
  induction later, after using Nat.le_induction with
  | base => exact .refl _
  | succ later _ ih => exact ih.trans (.of_calls (interleaving.calls later))

/-- The identity of valid tables. -/
theorem metadata (interleaving : Interleaving seen) (moment : Nat) :
    ∃ row, (seen moment).chainMetadata = [row] ∧ row.schemaVersion = schemaVersion ∧
      row.chainId = testnet.chainId ∧ row.genesisHash = OurCoin.genesisHash := by
  obtain ⟨_, loaded⟩ := interleaving.valid moment
  exact (loadChain_eq_ok loaded).1

/-- The statements that select the confirmed transactions read hashes. -/
theorem hashes (interleaving : Interleaving seen) (moment : Nat) {row : ConfirmedRow}
    (member : row ∈ (seen moment).confirmedTransactions) :
    row.txid.length = 32 ∧ row.blockHash.length = 32 := by
  obtain ⟨_, loaded⟩ := interleaving.valid moment
  obtain ⟨-, ⟨-, -, blocks, -, -, -, -, -, -, -, -, txids, -⟩, ⟨-, -, -, stored, -⟩, -⟩ :=
    loadChain_eq_ok loaded
  obtain ⟨block, isBlock, named⟩ := List.mem_map.mp (stored row member)
  exact ⟨txids row member, named ▸ (blocks block isBlock).1⟩

theorem ids_ok (interleaving : Interleaving seen) (moment : Nat) :
    ((seen moment).confirmedTransactions.mapM fun row =>
      exactBlob row.txid 32 "confirmed transaction ID") =
        .ok ((seen moment).confirmedTransactions.map ConfirmedRow.txid) :=
  mapM_eq_map fun _ member => exactBlob_eq_ok.mpr ⟨(interleaving.hashes moment member).1, rfl⟩

theorem pairs_ok (interleaving : Interleaving seen) (moment : Nat) :
    ((seen moment).confirmedTransactions.mapM fun row => do
      return (← exactBlob row.txid 32 "confirmed transaction ID",
        ← exactBlob row.blockHash 32 "confirmed block hash")) =
        .ok ((seen moment).confirmedTransactions.map fun row => (row.txid, row.blockHash)) := by
  apply mapM_eq_map
  intro row member
  obtain ⟨txid, blockHash⟩ := interleaving.hashes moment member
  rw [exactBlob_eq_ok.mpr ⟨txid, rfl⟩, exactBlob_eq_ok.mpr ⟨blockHash, rfl⟩]
  rfl

/-- **The statements before the comparison** restore the chain of the moment at which
`blocks` is selected. -/
theorem loadChainReading_eq (interleaving : Interleaving seen) :
    ∃ chain, (onTables (seen 3)).loadChain = .ok chain ∧
      (onTables (seen 3)).validateDerivedState chain = .ok () ∧
      (onTables (seen 0)).loadChainReading seen 0 =
        (do validateDerivedStateReading chain; return chain) seen (comparison seen) := by
  have passed : ∀ moment, ∃ chain, (onTables (seen moment)).loadChain = .ok chain ∧
      (onTables (seen moment)).validateIdentity = .ok () ∧ (seen moment).passesIntegrityCheck ∧
      (seen moment).passesForeignKeyCheck ∧
      (onTables (seen moment)).replayBlocks true = .ok chain ∧
      (onTables (seen moment)).validateDerivedState chain = .ok () := by
    intro moment
    obtain ⟨chain, loaded⟩ := interleaving.valid moment
    refine ⟨chain, loaded, ?_⟩
    simp only [loadChain, validateSqliteIntegrity, Raising.bind_eq_ok, raiseIf_eq_ok, exists_const,
      not_not, Raising.pure_eq_ok] at loaded
    obtain ⟨_, -, _, identity, ⟨integrity, keys⟩, _, replayed, _, derived, rfl⟩ := loaded
    exact ⟨identity, integrity, keys, replayed, derived⟩
  obtain ⟨-, -, identity, -⟩ := passed 0
  obtain ⟨-, -, -, integrity, -⟩ := passed 1
  obtain ⟨-, -, -, -, keys, -⟩ := passed 2
  obtain ⟨chain, loaded, -, -, -, replayed, derived⟩ := passed 3
  refine ⟨chain, loaded, derived, ?_⟩
  have replay := @replayBlocksReading_eq _ (onTables (seen 0)) seen 3 fun row member later after =>
    (interleaving.extendsLater after).bodies _ (List.mem_map_of_mem member)
  change replayBlocksReading _ seen 3 = ((onTables (seen 3)).replayBlocks true >>= _) at replay
  rw [replayed] at replay
  have sqlite : validateSqliteIntegrityReading seen 1 = .ok ((), 3) := by
    rw [validateSqliteIntegrityReading, compute_bind, raiseIf, if_neg (not_not.mpr integrity), ok_bind,
      compute, raiseIf, if_neg (not_not.mpr keys)]
    rfl
  have isOpen : (onTables (seen 0)).ensureOpen = .ok () := rfl
  rw [loadChainReading, lift_bind, isOpen, ok_bind, compute_bind]
  change ((onTables (seen 0)).validateIdentity >>= _) = _
  rw [identity, ok_bind, bind_apply, sqlite, ok_bind, bind_apply, replay]
  rfl

/-- **The comparison passes exactly when no derived table was changed.** -/
theorem compares_iff (interleaving : Interleaving seen)
    (derived : (onTables (seen 3)).validateDerivedState chain = .ok ()) :
    Compares chain (seen (comparison seen)).chainMetadata
        (seen (comparison seen + 1)).canonicalRows (seen (comparison seen + 2)).accountRows
        (seen (comparison seen + 3)).confirmedTransactions
        (seen (comparison seen + 4)).confirmedTransactions ↔ Undisturbed seen := by
  obtain ⟨blocks, state, expected, blocksOk, stateOk, expectedOk, ⟨row, rowOk, length, tipEq,
    supplyOk⟩, ⟨lengths, checked⟩, accountsOk, ⟨ids, idsOk, idsEq⟩, pairs, pairsOk, pairsEq⟩ :=
    validateDerivedState_iff.mp derived
  constructor
  · rintro ⟨blocks', state', expected', blocksOk', stateOk', expectedOk', ⟨row', rowOk', -, tipEq',
      supplyOk'⟩, ⟨lengths', checked'⟩, accountsOk', ⟨ids', idsOk', idsEq'⟩, pairs', pairsOk', pairsEq'⟩
    obtain rfl : blocks = blocks' := Except.ok.inj (blocksOk.symm.trans blocksOk')
    obtain rfl : state = state' := Except.ok.inj (stateOk.symm.trans stateOk')
    obtain rfl : expected = expected' := Except.ok.inj (expectedOk.symm.trans expectedOk')
    refine ⟨?_, ?_, ?_, ?_, ?_⟩
    · obtain ⟨stored, metadata, version, chainId, genesis⟩ := interleaving.metadata 3
      obtain ⟨stored', metadata', version', chainId', genesis'⟩ :=
        interleaving.metadata (comparison seen)
      rw [metadata] at rowOk
      rw [metadata'] at rowOk'
      obtain rfl : stored = row := Except.ok.inj rowOk
      obtain rfl : stored' = row' := Except.ok.inj rowOk'
      have supplies := Except.ok.inj ((encodeU64_of_decodeStoredU64 supplyOk).symm.trans
        (encodeU64_of_decodeStoredU64 supplyOk'))
      rw [metadata, metadata', List.cons.injEq]
      refine ⟨?_, rfl⟩
      cases stored
      cases stored'
      dsimp only at *
      rw [version, version', chainId, chainId', genesis, genesis', tipEq, tipEq', supplies]
    · exact Except.ok.inj ((canonicalValues_of_checkCanonical checked' lengths').symm.trans
        (canonicalValues_of_checkCanonical checked lengths))
    · exact Except.ok.inj ((accounts_written accountsOk').symm.trans (accounts_written accountsOk))
    · rw [← ids_eq idsOk, ← ids_eq idsOk', idsEq, idsEq']
    · rw [← pairs_eq pairsOk, ← pairs_eq pairsOk', pairsEq, pairsEq']
  · intro undisturbed
    refine ⟨blocks, state, expected, blocksOk, stateOk, expectedOk, ?_, ?_, ?_, ?_, ?_⟩
    · rw [undisturbed.metadata]
      exact ⟨row, rowOk, length, tipEq, supplyOk⟩
    · rw [undisturbed.canonical]
      exact ⟨lengths, checked⟩
    · rw [undisturbed.accounts]
      exact accountsOk
    · refine ⟨_, interleaving.ids_ok _, ?_⟩
      rw [undisturbed.ids, ← ids_eq idsOk, idsEq]
    · refine ⟨_, interleaving.pairs_ok _, ?_⟩
      rw [undisturbed.pairs, ← pairs_eq pairsOk, pairsEq]

/-- **A load among concurrent writers** succeeds, with the chain of a moment, exactly when no
derived table was changed between the selection of `blocks` and its own. -/
theorem consistentLoad_iff (interleaving : Interleaving seen) :
    ConsistentLoad seen ↔ Undisturbed seen := by
  obtain ⟨chain, loaded, derived, loadEq⟩ := interleaving.loadChainReading_eq
  rw [← interleaving.compares_iff derived, ConsistentLoad, loadEq]
  constructor
  · rintro ⟨_, next, moment, returned, -, -⟩
    obtain ⟨_, _, compared, -⟩ := Reading.bind_eq_ok.mp returned
    exact (validateDerivedStateReading_eq_ok.mp compared).1
  · intro compares
    refine ⟨chain, comparison seen + 5, 3, ?_, by rw [comparison]; omega, loaded⟩
    rw [bind_apply, validateDerivedStateReading_eq_ok.mpr ⟨compares, rfl⟩]
    rfl

end Interleaving

/-! ## One commit -/

/-- One commit, right before a statement. -/
def committing (statement : Nat) (before after : Tables) (moment : Nat) : Tables :=
  if moment < statement then before else after

theorem Interleaving.committing {before after : Tables} {chain grown : Chain} (statement : Nat)
    (loads : (onTables before).loadChain = .ok chain)
    (loads' : (onTables after).loadChain = .ok grown) (persists : before.Persists after) :
    Interleaving (committing statement before after) where
  valid moment := by
    rw [SQLiteChainStorage.committing]
    split
    · exact ⟨chain, loads⟩
    · exact ⟨grown, loads'⟩
  calls moment := by
    rw [SQLiteChainStorage.committing, SQLiteChainStorage.committing]
    split
    · split
      · exact .refl
      · exact .single persists
    · rw [if_neg (by omega)]

omit [Platform] in
/-- A new database, and the call that persists the first block. -/
theorem exists_firstCommit : ∃ before after : Tables,
    @Represents asciiPlatform before genesisChain ∧ @Represents asciiPlatform after firstChain ∧
      firstChain.activeTipHash = firstHash ∧
      @loadChain asciiPlatform (onTables before) = .ok genesisChain ∧
      @loadChain asciiPlatform (onTables after) = .ok firstChain ∧
      @Tables.Persists asciiPlatform before after := by
  obtain ⟨before, -, represents⟩ := @exists_openFresh asciiPlatform
  have run := @Chain.Run.init asciiPlatform _ (@Chain.init_testnet asciiPlatform)
  have reachable := @Chain.Run.reachable asciiPlatform _ _ run
  obtain ⟨-, -, -, -, -, -, tip, -⟩ := @Chain.Refines.added_entry asciiPlatform _
    (@Chain.Reachable.refines asciiPlatform _ reachable) _ _ _ firstBlock_added
  obtain ⟨inserted, after, persisted, represents'⟩ :=
    @Represents.exists_persist asciiPlatform _ _ represents reachable _ _ _ firstBlock_added
  have longer := @Chain.Run.of_fed asciiPlatform _ _ firstChain_fed
  have loads := @Represents.loadChain_eq asciiPlatform (.onTables before) _ represents _ run rfl rfl
    rfl
  have loads' := @Represents.loadChain_eq asciiPlatform (.onTables after) _ represents' _ longer rfl
    rfl rfl
  exact ⟨before, after, represents, represents', tip.symm, loads, loads', firstChain, _, [],
    (congrArg (fun outcome => outcome.2.connection.committed) persisted).symm⟩

omit [Platform] in
/-- A commit right before the selection of `blocks` does not disturb the load. -/
theorem consistentLoad_first : ∃ before after : Tables, before.chainMetadata ≠ after.chainMetadata ∧
    Undisturbed (committing 3 before after) ∧
    @ConsistentLoad asciiPlatform (committing 3 before after) := by
  obtain ⟨before, after, represents, represents', tip, loads, loads', persists⟩ := exists_firstCommit
  have undisturbed : Undisturbed (committing 3 before after) := by
    have later : ∀ moment, 3 ≤ moment → committing 3 before after moment = after :=
      fun moment passed => if_neg (by omega)
    have comparisonLate : 3 ≤ comparison (committing 3 before after) := by
      rw [comparison]
      omega
    constructor
    all_goals rw [later _ (by omega), later 3 le_rfl]
  refine ⟨before, after, ?_, undisturbed, ?_⟩
  · intro same
    obtain ⟨_, -, metadata⟩ := @Holds.exists_metadata asciiPlatform _ _
      (@Represents.holds asciiPlatform _ _ represents)
    obtain ⟨_, -, metadata'⟩ := @Holds.exists_metadata asciiPlatform _ _
      (@Represents.holds asciiPlatform _ _ represents')
    rw [metadata, metadata', tip, List.cons.injEq, MetadataRow.mk.injEq] at same
    exact absurd same.1.2.2.2.1 (by decide)
  · exact (@Interleaving.consistentLoad_iff asciiPlatform _
      (@Interleaving.committing asciiPlatform _ _ _ _ 3 loads loads' persists)).mpr undisturbed

omit [Platform] in
/-- **A commit right before the selection of `chain_metadata`** makes the load of a database
that is valid at every moment raise. -/
theorem not_consistentLoad : ∃ before after : Tables,
    @Interleaving asciiPlatform (committing (4 + before.blocks.length) before after) ∧
    @loadChainReading asciiPlatform (onTables before)
        (committing (4 + before.blocks.length) before after) 0 =
      .error (storageIntegrityError "stored canonical tip differs from replay") ∧
    ¬ @ConsistentLoad asciiPlatform (committing (4 + before.blocks.length) before after) := by
  obtain ⟨before, after, represents, represents', tip, loads, loads', persists⟩ := exists_firstCommit
  have interleaving := @Interleaving.committing asciiPlatform _ _ _ _ (4 + before.blocks.length)
    loads loads' persists
  generalize isSeen : committing (4 + before.blocks.length) before after = seen at interleaving
  have three : seen 3 = before := isSeen ▸ if_pos (by omega)
  have zero : seen 0 = before := isSeen ▸ if_pos (by omega)
  have compared : seen (comparison seen) = after := by
    rw [comparison, three]
    exact isSeen ▸ if_neg (by omega)
  obtain ⟨chain, loaded, -, loadEq⟩ := @Interleaving.loadChainReading_eq asciiPlatform _ interleaving
  rw [three, loads, Except.ok.injEq] at loaded
  subst loaded
  have raised : @loadChainReading asciiPlatform (onTables before) seen 0 =
      .error (storageIntegrityError "stored canonical tip differs from replay") := by
    obtain ⟨supply, -, metadata⟩ := @Holds.exists_metadata asciiPlatform _ _
      (@Represents.holds asciiPlatform _ _ represents')
    rw [zero] at loadEq
    have moved := @validateDerivedStateReading_moved asciiPlatform seen genesisChain (comparison seen)
      _ (by rw [compared, metadata]) (by rw [tip]; rfl)
      (by rw [tip]; exact (by decide : firstHash ≠ OurCoin.genesisHash))
    rw [loadEq, bind_apply, moved]
    rfl
  refine ⟨before, after, isSeen ▸ interleaving, isSeen ▸ raised, ?_⟩
  rw [isSeen]
  rintro ⟨chain, next, moment, returned, -⟩
  rw [zero, raised] at returned
  cases returned

end SQLiteChainStorage

end OurCoin
