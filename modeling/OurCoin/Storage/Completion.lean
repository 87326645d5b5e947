import OurCoin.Library.Completion
import OurCoin.Storage.Representation
import OurCoin.Storage.Work
import OurCoin.Tree.Extension
import OurCoin.Tree.Reorganization

/-!
# Persisting succeeds

On a database that represents a chain, and without faults, the update of an accepted block is
always persisted.

* Everything that is written can be written: heights and supplies are unsigned 64-bit
  integers, and cumulative work fits into 40 bytes (`Chain.Refines.work_bounds`).
* No constraint of the schema is violated: the hashes, the heights and the transaction IDs of
  a branch are distinct (`Chain.Refines.succeeds_replaceDerivedState`).
* `Represents.exists_persist` joins this, and `exists_openFresh` creates a database.
-/

set_option autoImplicit false

namespace OurCoin

open Raising Transactions

/-! ## Values -/

theorem exists_encodeU64 {value : Int} (range : 0 ≤ value ∧ value ≤ u64Max) :
    ∃ written, encodeU64 value = .ok written ∧ written.length = 8 :=
  ⟨_, encodeUnsigned_eq_ok.mpr ⟨range, rfl⟩, BigEndian.length_toBytes _ _⟩

theorem length_encodeU64 {value : Int} {written : Bytes} (encoded : encodeU64 value = .ok written) :
    written.length = 8 := by
  obtain ⟨-, rfl⟩ := encodeUnsigned_eq_ok.mp encoded
  exact BigEndian.length_toBytes _ _

variable [Platform]

/-! ## Rows that can be inserted -/

namespace Tables

variable {tables : Tables}

omit [Platform] in
theorem insertBlockRow_ok {row : BlockRow}
    (checked : row.blockHash.length = 32 ∧ row.height.length = 8 ∧ row.cumulativeWork.length = 40 ∧
      row.issuedSupplyAtoms.length = 8) (fresh : ¬ tables.hasBlock row.blockHash)
    (parent : ∀ parent ∈ row.parentHash, tables.hasBlock parent ∨ parent = row.blockHash) :
    insertBlockRow row tables = .ok ((), { tables with
      sequence := tables.sequence + 1
      blocks := tables.blocks ++ [{ row with acceptanceOrder := tables.sequence + 1 }] }) := by
  simp only [insertBlockRow, bind_eq_ok, raiseIf_eq_ok, exists_const, pure_eq_ok, not_not, and_true]
  refine ⟨checked, fresh, ?_⟩
  rintro ⟨hash, named, missing, other⟩
  exact (parent hash named).elim missing other

omit [Platform] in
theorem insertTransactionRow_ok {row : TransactionRow} (length : row.txid.length = 32)
    (fresh : (row.blockHash, row.position) ∉
      tables.blockTransactions.map fun other => (other.blockHash, other.position))
    (stored : tables.hasBlock row.blockHash) :
    insertTransactionRow row tables = .ok ((), { tables with
      blockTransactions := tables.blockTransactions ++ [row] }) := by
  simp only [insertTransactionRow, bind_eq_ok, raiseIf_eq_ok, exists_const, pure_eq_ok, not_not,
    and_true]
  exact ⟨length, fresh, stored⟩

omit [Platform] in
theorem insertCanonicalRow_ok {row : CanonicalRow} (length : row.height.length = 8)
    (newHeight : row.height ∉ tables.canonicalChain.map CanonicalRow.height)
    (newHash : row.blockHash ∉ tables.canonicalChain.map CanonicalRow.blockHash)
    (stored : tables.hasBlock row.blockHash) :
    insertCanonicalRow row tables = .ok ((), { tables with
      canonicalChain := tables.canonicalChain ++ [row] }) := by
  simp only [insertCanonicalRow, bind_eq_ok, raiseIf_eq_ok, exists_const, pure_eq_ok, not_not,
    and_true]
  exact ⟨length, newHeight, newHash, stored⟩

omit [Platform] in
theorem insertConfirmedRow_ok {row : ConfirmedRow} (length : row.txid.length = 32)
    (fresh : row.txid ∉ tables.confirmedTransactions.map ConfirmedRow.txid)
    (stored : tables.hasBlock row.blockHash) :
    insertConfirmedRow row tables = .ok ((), { tables with
      confirmedTransactions := tables.confirmedTransactions ++ [row] }) := by
  simp only [insertConfirmedRow, bind_eq_ok, raiseIf_eq_ok, exists_const, pure_eq_ok, not_not,
    and_true]
  exact ⟨length, fresh, stored⟩

omit [Platform] in
theorem insertAccountRow_ok {row : AccountRow}
    (checked : row.balanceAtoms.length = 8 ∧ row.nonce.length = 8)
    (fresh : row.address ∉ tables.accounts.map AccountRow.address) :
    insertAccountRow row tables = .ok ((), { tables with accounts := tables.accounts ++ [row] }) := by
  simp only [insertAccountRow, bind_eq_ok, raiseIf_eq_ok, exists_const, pure_eq_ok, not_not, and_true]
  exact ⟨checked, fresh⟩

omit [Platform] in
theorem insertMetadataRow_ok {row : MetadataRow}
    (checked : row.genesisHash.length = 32 ∧ row.issuedSupplyAtoms.length = 8)
    (none : tables.chainMetadata = []) (stored : tables.hasBlock row.canonicalTipHash) :
    insertMetadataRow row tables = .ok ((), { tables with chainMetadata := [row] }) := by
  simp only [insertMetadataRow, bind_eq_ok, raiseIf_eq_ok, exists_const, pure_eq_ok, not_not,
    and_true]
  exact ⟨checked, none, stored⟩

omit [Platform] in
theorem updateMetadata_ok {tip supply : Bytes} (length : supply.length = 8)
    (stored : tables.hasBlock tip) :
    updateMetadata tip supply tables = .ok ((), { tables with
      chainMetadata := tables.chainMetadata.map fun row =>
        { row with canonicalTipHash := tip, issuedSupplyAtoms := supply } }) := by
  simp only [updateMetadata, bind_eq_ok, raiseIf_eq_ok, exists_const, pure_eq_ok, and_true]
  exact ⟨fun wrong => wrong.2 length, fun wrong => wrong.2 stored⟩

end Tables

omit [Platform] in
/-- A list without duplicates has none in front of an element. -/
theorem not_mem_of_nodup {α β : Type} {f : α → β} {front back : List α} {x : α}
    (nodup : ((front ++ x :: back).map f).Nodup) : f x ∉ front.map f := by
  rw [List.map_append, List.map_cons, List.nodup_append] at nodup
  intro member
  exact nodup.2.2 _ member _ List.mem_cons_self rfl

omit [Platform] in
/-- What statements turn the tables into, for the statements that follow. -/
theorem succeeds_turns_bind {α β : Type} {before : Tables} {x : Statement α} {f : α → Statement β}
    {after : α → Tables → Prop} (consistent : before.Consistent) (first : Succeeds before x)
    (turns : Turns before x after)
    (next : ∀ a tables, after a tables → tables.Consistent → Succeeds tables (f a)) :
    Succeeds before (x >>= f) := by
  refine @Succeeds.bind _ _ _ _ _ (fun a tables => after a tables ∧ tables.Consistent) _ _ first ?_ ?_
  · rintro session working isOpen rfl
    exact turns session working isOpen ⟨rfl, consistent⟩
  · rintro a tables ⟨held, consistent'⟩
    exact next a tables held consistent'

/-! ## Blocks -/

theorem succeeds_insertTransactions {blockHash : Bytes} : ∀ {transactions : List Transaction}
    {position : Nat} {before : Tables},
    (∀ tx ∈ transactions, ∃ txid, tx.txid = .ok txid) → before.hasBlock blockHash →
    (∀ row ∈ before.blockTransactions, row.blockHash = blockHash → row.position < position) →
      Succeeds before (insertTransactions blockHash position transactions)
  | [], position, before, _, _, _ => .pure ()
  | tx :: rest, position, before, named, stored, earlier => by
      obtain ⟨txid, txidOk⟩ := named tx List.mem_cons_self
      obtain ⟨written, writtenOk⟩ : ∃ written, tx.toBytes = .ok written := by
        simp only [Transaction.txid, bind_eq_ok] at txidOk
        obtain ⟨written, writtenOk, -⟩ := txidOk
        exact ⟨written, writtenOk⟩
      have rowOk : transactionValues blockHash position tx =
          .ok ⟨blockHash, position, txid, written⟩ := by
        rw [transactionValues, txidOk, ok_bind, writtenOk, ok_bind]
        rfl
      rw [insertTransactions]
      apply Succeeds.lift_bind rowOk
      apply Succeeds.execute_bind
      · apply Tables.insertTransactionRow_ok (Transaction.length_txid txidOk) _ stored
        intro member
        obtain ⟨other, otherMem, same⟩ := List.mem_map.mp member
        rw [Prod.mk.injEq] at same
        exact absurd same.2 (earlier other otherMem same.1).ne
      · apply succeeds_insertTransactions
        · exact fun other member => named other (List.mem_cons_of_mem _ member)
        · exact stored
        · apply Tables.forall_mem_concat
          · intro row member same
            exact Nat.lt_succ_of_lt (earlier row member same)
          · intro _
            exact Nat.lt_succ_self position

namespace Chain.Refines

variable {chain : Chain} {hash : Bytes} {entry : ChainEntry}

omit [Platform] in
theorem getBlock_eq_ok (stored : chain.entries.get? hash = some entry) :
    chain.getBlock hash = .ok entry.block := by
  rw [getBlock, entryOf_eq_ok.mpr stored]
  rfl

omit [Platform] in
theorem getRecord_eq_ok (stored : chain.entries.get? hash = some entry) :
    chain.getRecord hash = .ok entry.record := by
  rw [getRecord, entryOf_eq_ok.mpr stored]
  rfl

/-- **The row of a stored block can be written.** -/
theorem exists_blockValues (refines : chain.Refines)
    (stored : chain.entries.get? hash = some entry) :
    ∃ row, blockValues hash entry.block entry.record = .ok row ∧ row.blockHash.length = 32 ∧
      row.height.length = 8 ∧ row.cumulativeWork.length = 40 ∧ row.issuedSupplyAtoms.length = 8 := by
  obtain ⟨path, branch, ends⟩ := refines.exists_branch stored
  have wellMade := refines.wellMade stored
  have encodable := BlockHeader.exists_blockHash.mp ⟨hash, ends.hash_ok⟩
  obtain ⟨heightEq, -⟩ := refines.header_height stored
  obtain ⟨-, supplyNonneg, supplyLe⟩ := ends.replays.supply
  have supplyMax : maxSupplyAtoms ≤ u64Max := by decide
  obtain ⟨height, heightOk, heightLength⟩ := exists_encodeU64 (heightEq ▸ encodable.height_range)
  obtain ⟨supply, supplyOk, supplyLength⟩ :=
    @exists_encodeU64 entry.record.totalSupplyAtoms (by rw [ends.supply_eq]; omega)
  obtain ⟨⟨heightNonneg, -⟩, workLower, workUpper⟩ := refines.work_bounds stored
  obtain ⟨work, workOk, -⟩ := (fitsField_iff.mpr ⟨by omega, workUpper⟩).stored
  have headerOk := ends.hash_ok
  simp only [Block.blockHash, BlockHeader.blockHash, bind_eq_ok] at headerOk
  obtain ⟨header, headerOk, -⟩ := headerOk
  have rootOk := wellMade.root_ok
  simp only [transactionsRoot, RewardTransaction.txid, bind_eq_ok] at rootOk
  obtain ⟨_, ⟨reward, rewardOk, -⟩, -⟩ := rootOk
  refine ⟨⟨0, hash, entry.record.parentHash, height, work, supply, header, reward⟩, ?_,
    BlockHeader.length_blockHash ends.hash_ok, heightLength, length_encodeWork workOk, supplyLength⟩
  rw [blockValues, heightOk, ok_bind, workOk, ok_bind, supplyOk, ok_bind, headerOk, ok_bind, rewardOk,
    ok_bind]
  rfl

theorem exists_txids (refines : chain.Refines) (stored : chain.entries.get? hash = some entry) :
    ∀ tx ∈ entry.block.transactions, ∃ txid, tx.txid = .ok txid := by
  have rootOk := (refines.wellMade stored).root_ok
  simp only [transactionsRoot, bind_eq_ok] at rootOk
  obtain ⟨_, -, ids, idsOk, -⟩ := rootOk
  intro tx member
  obtain ⟨txid, txidOk, -⟩ := exists_of_mapM_eq_ok idsOk tx member
  exact ⟨txid, txidOk⟩

/-- **A new block can be inserted** into tables that hold its parent. -/
theorem succeeds_insertBlock (refines : chain.Refines)
    (stored : chain.entries.get? hash = some entry) {before : Tables}
    (consistent : before.Consistent) (fresh : ¬ before.hasBlock hash)
    (parent : ∀ parent ∈ entry.record.parentHash, before.hasBlock parent) :
    Succeeds before (insertBlock chain hash) := by
  obtain ⟨row, rowOk, checked⟩ := refines.exists_blockValues stored
  obtain ⟨rowHash, rowParent, -⟩ := blockValues_eq_ok rowOk
  rw [insertBlock]
  apply Succeeds.lift_bind (getBlock_eq_ok stored)
  apply Succeeds.lift_bind (getRecord_eq_ok stored)
  apply Succeeds.lift_bind rowOk
  apply Succeeds.execute_bind
  · apply Tables.insertBlockRow_ok checked
    · rw [rowHash]
      exact fresh
    · intro other named
      exact .inl (parent other (rowParent ▸ named))
  · apply succeeds_insertTransactions (refines.exists_txids stored)
    · rw [Tables.hasBlock, List.map_append, List.map_singleton, rowHash]
      exact List.mem_append_right _ (List.mem_singleton_self _)
    · intro body member same
      exact absurd (same ▸ consistent.bodies_stored body member) fresh

end Chain.Refines

/-! ## The derived state -/

theorem succeeds_insertConfirmed {block : Block} {hash : Bytes} (hashOk : block.blockHash = .ok hash) :
    ∀ {transactions : List Transaction} {rows : List ConfirmedRow} {before : Tables},
      transactions.mapM (confirmedValues block) = .ok rows →
      ((before.confirmedTransactions ++ rows).map ConfirmedRow.txid).Nodup →
      before.hasBlock hash → Succeeds before (insertConfirmed block transactions)
  | [], _, _, _, _, _ => .pure ()
  | tx :: rest, rows, before, written, nodup, stored => by
      simp only [List.mapM_cons, bind_eq_ok, pure_eq_ok] at written
      obtain ⟨row, rowOk, others, othersOk, rfl⟩ := written
      have shape := rowOk
      simp only [confirmedValues, hashOk, ok_bind, bind_eq_ok, pure_eq_ok] at shape
      obtain ⟨txid, txidOk, rfl⟩ := shape
      rw [insertConfirmed]
      apply Succeeds.lift_bind rowOk
      apply Succeeds.execute_bind
      · exact Tables.insertConfirmedRow_ok (Transaction.length_txid txidOk) (not_mem_of_nodup nodup)
          stored
      · apply succeeds_insertConfirmed hashOk othersOk
        · rw [List.append_assoc]
          exact nodup
        · exact stored

theorem succeeds_insertCanonical : ∀ {blocks : List Block} {canonical : List CanonicalRow}
    {confirmed : List (List ConfirmedRow)} {before : Tables},
    blocks.mapM canonicalValues = .ok canonical → confirmedRows blocks = .ok confirmed →
    ((before.canonicalChain ++ canonical).map CanonicalRow.height).Nodup →
    ((before.canonicalChain ++ canonical).map CanonicalRow.blockHash).Nodup →
    ((before.confirmedTransactions ++ confirmed.flatten).map ConfirmedRow.txid).Nodup →
    (∀ row ∈ canonical, before.hasBlock row.blockHash) → Succeeds before (insertCanonical blocks)
  | [], _, _, _, _, _, _, _, _, _ => .pure ()
  | block :: rest, canonical, confirmed, before, canonicalOk, confirmedOk, heights, hashes, txids,
      stored => by
      rw [confirmedRows] at confirmedOk
      simp only [List.mapM_cons, bind_eq_ok, pure_eq_ok] at canonicalOk confirmedOk
      obtain ⟨row, rowOk, others, othersOk, rfl⟩ := canonicalOk
      obtain ⟨own, ownOk, later, laterOk, rfl⟩ := confirmedOk
      have shape := rowOk
      simp only [canonicalValues, bind_eq_ok, pure_eq_ok] at shape
      obtain ⟨height, heightOk, hash, hashOk, rfl⟩ := shape
      have here := stored _ List.mem_cons_self
      rw [List.flatten_cons, ← List.append_assoc] at txids
      have inserted := Tables.insertCanonicalRow_ok (length_encodeU64 heightOk)
        (not_mem_of_nodup heights) (not_mem_of_nodup hashes) here
      rw [insertCanonical]
      apply Succeeds.lift_bind rowOk
      apply Succeeds.execute_bind inserted
      apply Succeeds.bind _ (leads_insertConfirmed block block.transactions _)
      · rintro _ tables ⟨rows, rowsOk, rfl⟩
        rw [ownOk] at rowsOk
        cases rowsOk
        apply succeeds_insertCanonical othersOk laterOk
        · rw [List.append_assoc]
          exact heights
        · rw [List.append_assoc]
          exact hashes
        · exact txids
        · intro other member
          exact stored other (List.mem_cons_of_mem _ member)
      · apply succeeds_insertConfirmed hashOk ownOk
        · rw [List.map_append] at txids
          exact (List.nodup_append.mp txids).1
        · exact here

omit [Platform] in
theorem succeeds_insertAccounts : ∀ {items : List (Text × Account)} {before : Tables},
    (before.accounts.map AccountRow.address ++ items.map Prod.fst).Nodup →
      Succeeds before (insertAccounts items)
  | [], _, _ => .pure ()
  | item :: rest, before, nodup => by
      obtain ⟨balance, balanceOk, balanceLength⟩ := exists_encodeU64 item.2.balance_range
      obtain ⟨nonce, nonceOk, nonceLength⟩ := exists_encodeU64 item.2.nonce_range
      have rowOk : accountValues item = .ok ⟨item.1, balance, nonce⟩ := by
        rw [accountValues, balanceOk, ok_bind, nonceOk, ok_bind]
        rfl
      have fresh : item.1 ∉ before.accounts.map AccountRow.address := by
        intro member
        rw [List.map_cons, List.nodup_append] at nodup
        exact nodup.2.2 _ member _ List.mem_cons_self rfl
      rw [insertAccounts]
      apply Succeeds.lift_bind rowOk
      apply Succeeds.execute_bind (Tables.insertAccountRow_ok ⟨balanceLength, nonceLength⟩ fresh)
      apply succeeds_insertAccounts
      rw [List.map_append, List.map_singleton, List.append_assoc]
      exact nodup

namespace Chain.Refines

variable {chain : Chain}

/-- The rows of the canonical index of a branch, whose heights and hashes are distinct. -/
theorem exists_canonicalRows (refines : chain.Refines) {hash : Bytes} {entry : ChainEntry}
    {path : List (Bytes × ChainEntry)} {branch : BranchState}
    (ends : chain.BranchTo hash entry path branch) :
    ∃ rows, (pathBlocks path).mapM canonicalValues = .ok rows ∧
      (rows.map CanonicalRow.height).Nodup ∧ rows.map CanonicalRow.blockHash = path.map Prod.fst := by
  have stored : ∀ item ∈ path, item.2.block.blockHash = .ok item.1 :=
    fun item member => refines.blockHash_ok (ends.lineage.find_of_mem member)
  obtain ⟨rows, rowsOk⟩ : ∃ rows, (pathBlocks path).mapM canonicalValues = .ok rows := by
    apply exists_mapM_eq_ok
    intro block member
    obtain ⟨item, itemMem, rfl⟩ := List.mem_map.mp member
    have encodable := BlockHeader.exists_blockHash.mp ⟨_, stored item itemMem⟩
    obtain ⟨height, heightOk, -⟩ := exists_encodeU64 encodable.height_range
    exact ⟨⟨height, item.1⟩, by
      rw [canonicalValues, heightOk, ok_bind, stored item itemMem, ok_bind]
      rfl⟩
  refine ⟨rows, rowsOk, ?_, ?_⟩
  · rw [List.Nodup, List.pairwise_map]
    apply (ends.replays.canonical_ascending rowsOk).imp
    intro first second less same
    rw [same] at less
    exact lt_irrefl _ less
  · have named : (pathBlocks path).mapM Block.blockHash =
        .ok (rows.map CanonicalRow.blockHash) := by
      apply mapM_of_mapM rowsOk
      intro block row rowOk
      simp only [canonicalValues, bind_eq_ok, pure_eq_ok] at rowOk
      obtain ⟨_, -, hash, hashOk, rfl⟩ := rowOk
      exact hashOk
    have own : (pathBlocks path).mapM Block.blockHash = .ok (path.map Prod.fst) := by
      rw [mapM_eq_ok, pathBlocks, List.forall₂_map_left_iff, List.forall₂_map_right_iff,
        List.forall₂_same]
      exact stored
    rw [named] at own
    exact Except.ok.inj own

/-- The confirmed transactions are listed in the order of the branch. -/
theorem confirmedRows_txids : ∀ {blocks : List Block}
    {confirmed : List (List ConfirmedRow)}, confirmedRows blocks = .ok confirmed →
      (branchTransactions blocks).mapM Transaction.txid =
        .ok (confirmed.flatten.map ConfirmedRow.txid)
  | [], _, written => by
      cases written
      rfl
  | block :: rest, _, written => by
      rw [confirmedRows] at written
      simp only [List.mapM_cons, bind_eq_ok, pure_eq_ok] at written
      obtain ⟨rows, rowsOk, confirmed, confirmedOk, rfl⟩ := written
      have own : block.transactions.mapM Transaction.txid = .ok (rows.map ConfirmedRow.txid) := by
        apply mapM_of_mapM rowsOk
        intro tx row rowOk
        simp only [confirmedValues, bind_eq_ok, pure_eq_ok] at rowOk
        obtain ⟨txid, txidOk, _, -, rfl⟩ := rowOk
        exact txidOk
      rw [List.flatten_cons, List.map_append, mapM_eq_ok]
      exact List.rel_append (mapM_eq_ok.mp own) (mapM_eq_ok.mp (confirmedRows_txids confirmedOk))

/-- The rows of the confirmed transactions of a branch, whose IDs are distinct. -/
theorem exists_confirmedRows (refines : chain.Refines) {hash : Bytes} {entry : ChainEntry}
    {path : List (Bytes × ChainEntry)} {branch : BranchState}
    (ends : chain.BranchTo hash entry path branch) :
    ∃ confirmed, confirmedRows (pathBlocks path) = .ok confirmed ∧
      (confirmed.flatten.map ConfirmedRow.txid).Nodup := by
  obtain ⟨ids, idsOk, nodup, -⟩ := ends.replays.txids
  obtain ⟨confirmed, confirmedOk⟩ : ∃ confirmed, confirmedRows (pathBlocks path) = .ok confirmed := by
    apply exists_mapM_eq_ok
    intro block member
    obtain ⟨item, itemMem, rfl⟩ := List.mem_map.mp member
    have stored := ends.lineage.find_of_mem itemMem
    apply exists_mapM_eq_ok
    intro tx txMem
    obtain ⟨txid, txidOk⟩ := refines.exists_txids stored tx txMem
    exact ⟨⟨txid, item.1⟩, by
      rw [confirmedValues, txidOk, ok_bind, refines.blockHash_ok stored, ok_bind]
      rfl⟩
  refine ⟨confirmed, confirmedOk, ?_⟩
  have own : (branchTransactions (pathBlocks path)).mapM Transaction.txid =
      .ok (confirmed.flatten.map ConfirmedRow.txid) := confirmedRows_txids confirmedOk
  rw [idsOk] at own
  rw [← Except.ok.inj own]
  exact nodup

/-- **The derived state of a chain can be written** to tables that hold its blocks. -/
theorem succeeds_replaceDerivedState (refines : chain.Refines) {before : Tables}
    (held : ∀ hash entry, chain.entries.get? hash = some entry → before.hasBlock hash) :
    Succeeds before (replaceDerivedState chain) := by
  obtain ⟨path, branch, ends⟩ := refines.exists_branch chain.tipEntry_stored
  obtain ⟨canonical, canonicalOk, heights, hashes⟩ := refines.exists_canonicalRows ends
  obtain ⟨confirmed, confirmedOk, txids⟩ := refines.exists_confirmedRows ends
  obtain ⟨state, stateOk, -⟩ := refines.restores ends
  obtain ⟨-, supplyNonneg, supplyLe⟩ := ends.replays.supply
  have supplyMax : maxSupplyAtoms ≤ u64Max := by decide
  obtain ⟨supply, supplyOk, supplyLength⟩ :=
    @exists_encodeU64 chain.totalSupplyAtoms (by rw [totalSupplyAtoms, ends.supply_eq]; omega)
  rw [replaceDerivedState]
  apply Succeeds.execute_bind rfl
  apply Succeeds.execute_bind rfl
  apply Succeeds.execute_bind rfl
  apply Succeeds.lift_bind (Chain.Reachable.activeChain_eq ends)
  apply Succeeds.bind _ (leads_insertCanonical _ _)
  · rintro _ indexed ⟨canonical', confirmed', -, -, rfl⟩
    apply Succeeds.lift_bind stateOk
    apply Succeeds.bind _ (leads_insertAccounts _ _)
    · rintro _ written ⟨accounts, -, rfl⟩
      apply Succeeds.lift_bind supplyOk
      exact .execute (Tables.updateMetadata_ok supplyLength (held _ _ chain.tipEntry_stored))
    · apply succeeds_insertAccounts
      exact state.accounts.sortedItems_nodupKeys
  · apply succeeds_insertCanonical canonicalOk confirmedOk
    · exact heights
    · rw [List.nil_append, hashes]
      exact ends.lineage.nodup
    · exact txids
    · intro row member
      have named : row.blockHash ∈ path.map Prod.fst := hashes ▸ List.mem_map_of_mem member
      obtain ⟨⟨hash, entry⟩, itemMem, same⟩ := List.mem_map.mp named
      rw [← same]
      exact held hash entry (ends.lineage.find_of_mem itemMem)

end Chain.Refines

/-! ## Updates -/

variable {tables : Tables} {chain : Chain}

/-- The tables hold exactly the blocks of the chain. -/
theorem Represents.hasBlock_iff (represents : Represents tables chain) {hash : Bytes} :
    tables.hasBlock hash ↔ ∃ entry, chain.entries.get? hash = some entry := by
  rw [Tables.hasBlock, ← represents.stores.hashes_eq]
  exact Dict.mem_keys

/-- **The statements of an update succeed.** -/
theorem Represents.succeeds_persistBody (represents : Represents tables chain)
    (reachable : chain.Reachable) {block : Block} {update : ChainUpdate} {grown : Chain}
    (added : chain.addBlock block = (.ok update, grown)) {storage : SQLiteChainStorage}
    (isOpen : storage.closed = false) : Succeeds tables (storage.persistBody grown update) := by
  have refines := reachable.refines
  have refines' : grown.Refines := by
    have after := refines.addBlock block
    rwa [added] at after
  obtain ⟨old, new, switch⟩ := reachable.records_switch added
  obtain ⟨entry, accepted, fresh, stored, items, hashEq, -, -⟩ := refines.added_entry added
  obtain ⟨hash, parent, path, branch, next, -, -, parentEnds, extended, entryEq⟩ :=
    refines.newEntry_eq_ok.mp accepted
  have unknown : ¬ tables.hasBlock update.addedBlockHash := by
    rw [represents.hasBlock_iff, hashEq]
    rintro ⟨other, found⟩
    rw [fresh] at found
    cases found
  have noRow : tables.blockRow? update.addedBlockHash = none := by
    apply represents.stores.blockRow?_eq_none
    rw [hashEq]
    exact Dict.get?_eq_none.mp fresh
  have parentStored : ∀ parent ∈ entry.record.parentHash, tables.hasBlock parent := by
    intro other named
    rw [entryEq] at named
    cases named
    exact represents.hasBlock_iff.mpr ⟨parent, parentEnds.stored⟩
  -- The metadata row names the tip of the chain.
  obtain ⟨row, metadata⟩ : ∃ row, tables.chainMetadata = [row] := by
    have one := congrArg List.length represents.identity
    rw [List.length_map] at one
    exact List.length_eq_one_iff.mp one
  obtain ⟨tipEq, -⟩ := represents.derives.exists_metadata row (by rw [metadata]; simp)
  have tipOk : exactBlob row.canonicalTipHash 32 "stored canonical tip hash" =
      .ok chain.activeTipHash :=
    exactBlob_eq_ok.mpr ⟨by
      rw [tipEq]
      exact BlockHeader.length_blockHash (refines.blockHash_ok chain.tipEntry_stored), tipEq⟩
  have opened : storage.ensureOpen = .ok () := by
    rw [SQLiteChainStorage.ensureOpen, isOpen]
    rfl
  rw [SQLiteChainStorage.persistBody, SQLiteChainStorage.metadataRow]
  simp only [bind_assoc]
  apply Succeeds.lift_bind opened
  apply Succeeds.query_bind
  rw [metadata]
  apply @Succeeds.lift_bind _ _ _ _ _ _ _ row rfl
  apply Succeeds.lift_bind tipOk
  apply Succeeds.query_bind
  rw [noRow, if_neg (by simp)]
  apply Succeeds.lift_bind switch.previous_tip
  apply @Succeeds.lift_bind _ _ _ _ _ _ _ () (raiseIf_eq_ok.mpr (by simp))
  apply succeeds_turns_bind represents.consistent
    (refines'.succeeds_insertBlock (hashEq ▸ stored) represents.consistent unknown parentStored)
    (turns_insertBlock (hashEq ▸ stored) _)
  rintro _ inserted ⟨row', rows, rowOk, rowsOk, rfl⟩ consistent
  rw [hashEq] at rowOk rowsOk
  have stores : StoresBlocks { tables with
      sequence := tables.sequence + 1
      blocks := tables.blocks ++ [{ row' with acceptanceOrder := tables.sequence + 1 }]
      blockTransactions := tables.blockTransactions ++ rows } grown.entries.items :=
    items ▸ represents.stores.concat represents.consistent rowOk rowsOk rfl rfl
  split
  · apply Succeeds.bind _ (leads_replaceDerivedState grown _)
    · intro _ _ _
      exact .commit
    · apply refines'.succeeds_replaceDerivedState
      intro hash other found
      rw [Tables.hasBlock, ← stores.hashes_eq]
      exact Dict.mem_keys.mpr ⟨other, found⟩
  · exact .commit

/-- **An accepted block is always persisted** when the database is open and no statement
fails. -/
theorem Represents.exists_persist {data : Tables} (represents : Represents data chain)
    (reachable : chain.Reachable) {block : Block} {update : ChainUpdate} {grown : Chain}
    (added : chain.addBlock block = (.ok update, grown)) :
    ∃ inserted data', (SQLiteChainStorage.onTables data).persistChainUpdate grown update [] =
        (.ok inserted, .onTables data') ∧ Represents data' grown := by
  have refines := reachable.refines
  have refines' : grown.Refines := by
    have after := refines.addBlock block
    rwa [added] at after
  obtain ⟨entry, -, -, stored, -, hashEq, tipEq, -⟩ := refines.added_entry added
  have known : grown.contains update.addedBlockHash = true :=
    Chain.contains_eq_true.mpr ⟨entry, hashEq ▸ stored⟩
  have opened : (SQLiteChainStorage.onTables data).ensureOpen = .ok () := rfl
  have network : (SQLiteChainStorage.onTables data).network = testnet := rfl
  obtain ⟨inserted, returned⟩ := @transaction_succeeds _ _ _ operationalError
    SQLiteChainStorage.persistError _ (SQLiteChainStorage.onTables data).connection rfl
    (@Represents.succeeds_persistBody _ _ _ represents reachable _ _ _ added (.onTables data) rfl)
  have result : ((SQLiteChainStorage.onTables data).persistChainUpdate grown update []).1 =
      .ok inserted := by
    simp only [SQLiteChainStorage.persistChainUpdate, opened, network, refines'.network_eq, known,
      tipEq, ok_bind, raiseIf, ne_eq, not_true_eq_false, if_false]
    exact returned
  cases outcome : (SQLiteChainStorage.onTables data).persistChainUpdate grown update [] with
  | mk returned' after =>
      rw [outcome] at result
      dsimp only at result
      subst result
      obtain ⟨data', rfl, represents'⟩ := represents.persist rfl refines added outcome
      exact ⟨inserted, data', rfl, represents'⟩

/-- **A database can always be created.** -/
theorem exists_openFresh : ∃ data,
    SQLiteChainStorage.openFresh testnet = .ok (.onTables data) ∧ Represents data genesisChain := by
  have refines : genesisChain.Refines := .init Chain.init_testnet
  have stored : genesisChain.entries.get? genesisChain.activeTipHash = some genesisEntry :=
    Dict.get?_set_self _ _ _
  have everyHash : ∀ hash entry, genesisChain.entries.get? hash = some entry → hash = genesisHash := by
    intro hash entry found
    rw [genesisChain, Dict.get?_set] at found
    split at found
    · rename_i same
      exact same.symm
    · cases found
  obtain ⟨supply, supplyOk, supplyLength⟩ := @exists_encodeU64 genesisChain.totalSupplyAtoms (by
    rw [Chain.totalSupplyAtoms, Chain.tipEntry_eq stored]
    decide)
  have succeeds : Succeeds Tables.empty (SQLiteChainStorage.initializeBody testnet genesisChain) := by
    rw [SQLiteChainStorage.initializeBody]
    apply succeeds_turns_bind Tables.Consistent.empty _ (turns_insertBlock stored _)
    · rintro _ inserted ⟨row, rows, rowOk, rowsOk, rfl⟩ consistent
      have rowHash : row.blockHash = genesisHash := (blockValues_eq_ok rowOk).1
      have held : genesisHash ∈ (Tables.empty.blocks ++
          [{ row with acceptanceOrder := Tables.empty.sequence + 1 }]).map BlockRow.blockHash := by
        rw [← rowHash, List.map_append, List.map_singleton]
        exact List.mem_append_right _ (List.mem_singleton_self _)
      apply Succeeds.lift_bind supplyOk
      have genesisLength : genesisHash.length = 32 := by decide
      have inserted := @Tables.insertMetadataRow_ok { Tables.empty with
          sequence := Tables.empty.sequence + 1
          blocks := Tables.empty.blocks ++
            [{ row with acceptanceOrder := Tables.empty.sequence + 1 }]
          blockTransactions := Tables.empty.blockTransactions ++ rows }
        ⟨schemaVersion, testnet.chainId, genesisHash, genesisHash, supply⟩
        ⟨genesisLength, supplyLength⟩ rfl held
      apply Succeeds.execute_bind inserted
      apply Succeeds.bind _ (leads_replaceDerivedState genesisChain _)
      · intro _ _ _
        exact .commit
      · apply refines.succeeds_replaceDerivedState
        intro hash entry found
        rw [everyHash hash entry found]
        exact held
    · apply refines.succeeds_insertBlock stored Tables.Consistent.empty
      · simp [Tables.hasBlock, Tables.empty]
      · intro parent named
        cases named
  obtain ⟨u, returned⟩ := @transaction_succeeds _ _ _ operationalError id _ ⟨Tables.empty, none⟩ rfl
    succeeds
  have opened : ∃ storage, SQLiteChainStorage.openFresh testnet = .ok storage := by
    rw [SQLiteChainStorage.openFresh, Chain.init_testnet, ok_bind]
    dsimp only
    generalize rollingBack id _ _ = outcome at returned
    obtain ⟨result, session⟩ := outcome
    dsimp only at returned
    subst returned
    exact ⟨_, rfl⟩
  obtain ⟨storage, opened⟩ := opened
  obtain ⟨data, rfl, represents⟩ := Represents.openFresh opened
  exact ⟨data, opened, represents⟩

end OurCoin
