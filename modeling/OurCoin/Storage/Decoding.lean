import OurCoin.Storage.Statements
import OurCoin.Wire.Blocks

/-!
# Decoding stored blocks

What `_insert_block` writes for a block of a branch, `_decode_block_row` reads back
(`decodeBlockRow_eq`), and so does `_record_from_row` for its record
(`recordFromRow_eq`).
-/

set_option autoImplicit false

namespace OurCoin

open Raising

/-! ## Numbers -/

/-- An unsigned 64-bit number is read back from its BLOB. -/
theorem decodeStoredU64_eq {value : Int} {written : Bytes} (encoded : encodeU64 value = .ok written)
    (fieldName : String) : decodeStoredU64 written fieldName = .ok value := by
  have length : written.length = 8 := by
    obtain ⟨-, rfl⟩ := encodeUnsigned_eq_ok.mp encoded
    exact BigEndian.length_toBytes _ _
  simp only [decodeStoredU64, bind_eq_ok, raiseIf_eq_ok, rethrow_eq_ok, exists_const, not_not]
  exact ⟨length, readAll_ensureFinished (reads_u64 encoded)⟩

theorem encodeWork_eq_ok {value : Int} {written : Bytes} :
    encodeWork value = .ok written ↔ (0 < value ∧ value < 256 ^ cumulativeWorkBytes) ∧
      BigEndian.toBytes cumulativeWorkBytes value.toNat = written := by
  simp only [encodeWork, bind_eq_ok, raiseIf_eq_ok, exists_const, pure_eq_ok, not_not]

/-- Cumulative work is read back from its BLOB. -/
theorem decodeWork_eq {value : Int} {written : Bytes} (encoded : encodeWork value = .ok written) :
    decodeWork written = .ok value := by
  obtain ⟨⟨positive, bounded⟩, rfl⟩ := encodeWork_eq_ok.mp encoded
  have small : value.toNat < 256 ^ cumulativeWorkBytes := by
    zify
    rw [Int.toNat_of_nonneg positive.le]
    exact bounded
  have back : ((BigEndian.ofBytes (BigEndian.toBytes cumulativeWorkBytes value.toNat) : Nat) : Int) =
      value := by
    rw [BigEndian.ofBytes_toBytes small, Int.toNat_of_nonneg positive.le]
  simp only [decodeWork, bind_eq_ok, raiseIf_eq_ok, exists_const, pure_eq_ok, back,
    BigEndian.length_toBytes, not_not, and_true, true_and]
  omega

theorem exactBlob_eq_ok {value written : Bytes} {length : Nat} {fieldName : String} :
    exactBlob value length fieldName = .ok written ↔ value.length = length ∧ value = written := by
  simp only [exactBlob, bind_eq_ok, raiseIf_eq_ok, exists_const, pure_eq_ok, not_not]

variable [Platform]

/-! ## Rows -/

/-- What a row of `blocks` holds, apart from its acceptance order. -/
theorem blockValues_eq_ok {blockHash : Bytes} {block : Block} {record : BlockRecord}
    {row : BlockRow} (written : blockValues blockHash block record = .ok row) :
    row.blockHash = blockHash ∧ row.parentHash = record.parentHash ∧
      encodeU64 record.height = .ok row.height ∧
      encodeWork record.cumulativeWork = .ok row.cumulativeWork ∧
      encodeU64 record.totalSupplyAtoms = .ok row.issuedSupplyAtoms ∧
      block.header.toBytes = .ok row.headerBytes ∧
      block.rewardTransaction.toBytes = .ok row.rewardBytes := by
  simp only [blockValues, bind_eq_ok, pure_eq_ok] at written
  obtain ⟨height, heightOk, work, workOk, supply, supplyOk, header, headerOk, reward, rewardOk, rfl⟩ :=
    written
  exact ⟨rfl, rfl, heightOk, workOk, supplyOk, headerOk, rewardOk⟩

/-- The rows of the transactions of a block name the block and count up. -/
theorem bodyRows_facts {blockHash : Bytes} : ∀ {transactions : List Transaction} {position : Nat}
    {rows : List TransactionRow}, bodyRows blockHash position transactions = .ok rows →
      (∀ row ∈ rows, row.blockHash = blockHash ∧ position ≤ row.position) ∧
        rows.Pairwise fun first second => first.position ≤ second.position
  | [], position, rows, written => by
      cases written
      exact ⟨fun row member => (by cases member), .nil⟩
  | tx :: rest, position, rows, written => by
      simp only [bodyRows, transactionValues, bind_eq_ok, pure_eq_ok] at written
      obtain ⟨row, ⟨txid, -, bytes, -, rfl⟩, others, othersOk, rfl⟩ := written
      obtain ⟨named, sorted⟩ := bodyRows_facts othersOk
      constructor
      · intro row member
        rcases List.mem_cons.mp member with rfl | later
        · exact ⟨rfl, le_rfl⟩
        · exact ⟨(named row later).1, Nat.le_of_succ_le (named row later).2⟩
      · refine .cons ?_ sorted
        intro row later
        exact Nat.le_of_succ_le (named row later).2

/-- **The transactions of a block are decoded from their rows.** -/
theorem decodeTransactionRows_eq {blockHash : Bytes} : ∀ {transactions : List Transaction}
    {position : Nat} {rows : List TransactionRow},
    bodyRows blockHash position transactions = .ok rows → (∀ tx ∈ transactions, tx.Readable) →
      decodeTransactionRows position rows = .ok transactions
  | [], position, rows, written, _ => by
      cases written
      rfl
  | tx :: rest, position, rows, written, readable => by
      simp only [bodyRows, transactionValues, bind_eq_ok, pure_eq_ok] at written
      obtain ⟨row, ⟨txid, txidOk, bytes, bytesOk, rfl⟩, others, othersOk, rfl⟩ := written
      have decoded := Transaction.fromBytes_toBytes (readable tx List.mem_cons_self) bytesOk
      have later := decodeTransactionRows_eq othersOk fun other member =>
        readable other (List.mem_cons_of_mem _ member)
      simp only [decodeTransactionRows, bind_eq_ok, raiseIf_eq_ok, exists_const, exactBlob_eq_ok,
        pure_eq_ok, not_not]
      exact ⟨trivial, tx, decoded, txid, ⟨Transaction.length_txid txidOk, rfl⟩, txid, txidOk, rfl,
        rest, later, rfl⟩

/-- **A block is decoded from its rows.** -/
theorem decodeBlockRow_eq {tables : Tables} {row values : BlockRow} {blockHash : Bytes}
    {block : Block} {record : BlockRecord} {rows : List TransactionRow}
    (sameValues : { row with acceptanceOrder := 0 } = values)
    (written : blockValues blockHash block record = .ok values)
    (bodyOk : bodyRows blockHash 0 block.transactions = .ok rows)
    (found : tables.transactionRows blockHash = rows) (hashOk : block.blockHash = .ok blockHash)
    (wellMade : block.WellMade) : decodeBlockRow tables row = .ok block := by
  subst sameValues
  obtain ⟨hashEq, -, -, -, -, headerOk, rewardOk⟩ := blockValues_eq_ok written
  dsimp only at hashEq headerOk rewardOk
  have heads : decodeHeads row = .ok (block.header, block.rewardTransaction) := by
    simp only [decodeHeads, bind_eq_ok, exactBlob_eq_ok, rethrow_eq_ok, pure_eq_ok]
    exact ⟨_, ⟨hashEq ▸ BlockHeader.length_blockHash hashOk, rfl⟩, _,
      BlockHeader.fromBytes_toBytes wellMade.header_readable headerOk, _,
      RewardTransaction.fromBytes_toBytes wellMade.reward_readable rewardOk, rfl⟩
  have transactions := decodeTransactionRows_eq bodyOk wellMade.transactions_readable
  rw [decodeBlockRow, heads, ok_bind, hashEq, found]
  simp only [decodeBody, bind_eq_ok, rethrow_eq_ok, raiseIf_eq_ok, exists_const, pure_eq_ok, not_not]
  exact ⟨_, transactions, _, hashOk, hashEq.symm, _, wellMade.root_ok, rfl, rfl⟩

/-- **A record is decoded from its row.** -/
theorem recordFromRow_eq {row values : BlockRow} {blockHash : Bytes} {block : Block}
    {record : BlockRecord} (sameValues : { row with acceptanceOrder := 0 } = values)
    (written : blockValues blockHash block record = .ok values)
    (hashEq : record.blockHash = blockHash) (hashLength : blockHash.length = 32)
    (parentLength : ∀ parent ∈ record.parentHash, parent.length = 32) :
    recordFromRow row = .ok record := by
  subst sameValues
  obtain ⟨rowHash, rowParent, heightOk, workOk, supplyOk, -, -⟩ := blockValues_eq_ok written
  dsimp only at rowHash rowParent heightOk workOk supplyOk
  have parent : parentFromRow row.parentHash = .ok record.parentHash := by
    rw [rowParent]
    cases named : record.parentHash with
    | none => rfl
    | some parent =>
        simp only [parentFromRow, map_eq_ok, exactBlob_eq_ok]
        exact ⟨parent, ⟨parentLength parent named, rfl⟩, rfl⟩
  simp only [recordFromRow, bind_eq_ok, pure_eq_ok]
  refine ⟨_, parent, row.blockHash, ?_, _, decodeStoredU64_eq heightOk _, _, decodeWork_eq workOk, _,
    decodeStoredU64_eq supplyOk _, ?_⟩
  · exact exactBlob_eq_ok.mpr ⟨rowHash ▸ hashLength, rfl⟩
  · rw [rowHash, ← hashEq]

/-- The rows of the canonical index are written with ascending heights. -/
theorem Replays.canonical_ascending {network : NetworkConfig} {blocks : List Block}
    {branch : BranchState} (run : Replays network blocks branch) {rows : List CanonicalRow}
    (written : blocks.mapM canonicalValues = .ok rows) :
    rows.Pairwise fun first second => bytesKey first.height < bytesKey second.height := by
  obtain ⟨length, each⟩ := List.forall₂_iff_get.mp (mapM_eq_ok.mp written)
  have heights : ∀ (i : Nat) (inside : i < rows.length),
      i < 256 ^ 8 ∧ rows[i].height = BigEndian.toBytes 8 i := by
    intro i inside
    have inside' : i < blocks.length := by omega
    have values := each i inside' inside
    simp only [List.get_eq_getElem, canonicalValues, bind_eq_ok, pure_eq_ok, encodeU64,
      encodeUnsigned_eq_ok] at values
    obtain ⟨_, ⟨⟨-, fits⟩, rfl⟩, _, -, row⟩ := values
    have split : blocks = blocks.take i ++ blocks[i] :: blocks.drop (i + 1) := by simp
    have height := run.height_eq split
    rw [List.length_take, Nat.min_eq_left inside'.le] at height
    rw [height, u64Max] at fits
    rw [← row, height, Int.toNat_natCast]
    exact ⟨by omega, rfl⟩
  rw [List.pairwise_iff_getElem]
  intro i j iInside jInside lower
  rw [(heights i iInside).2, (heights j jInside).2]
  exact BigEndian.toBytes_lt lower (heights j jInside).1

end OurCoin
