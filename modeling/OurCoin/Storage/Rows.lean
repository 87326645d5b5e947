import OurCoin.Storage.Decoding
import OurCoin.Wire.Canonical

/-!
# Rows that are accepted

Whatever `_decode_block_row` and `_record_from_row` accept is what `_insert_block` writes:
the columns of an accepted row hold the canonical bytes of the block and of the record that
are read from it (`blockValues_of_decoded`), and the rows of its transactions those of its
body (`bodyRows_of_decodeTransactionRows`). The same holds of the rows of the canonical
index (`canonicalValues_of_checkCanonical`) and of the accounts
(`accountValues_of_decoded`).
-/

set_option autoImplicit false

namespace OurCoin

open Raising Reader

/-! ## Numbers -/

/-- A BLOB that is read as an unsigned 64-bit number is the one that is written for it. -/
theorem encodeU64_of_decodeStoredU64 {written : Bytes} {value : Int} {fieldName : String}
    (decoded : decodeStoredU64 written fieldName = .ok value) : encodeU64 value = .ok written := by
  simp only [decodeStoredU64, bind_eq_ok, raiseIf_eq_ok, rethrow_eq_ok, exists_const] at decoded
  exact readAll_finish_eq_ok consumes_u64 decoded.2

/-- A BLOB that is read as cumulative work is the one that is written for it. -/
theorem encodeWork_of_decodeWork {written : Bytes} {value : Int}
    (decoded : decodeWork written = .ok value) : encodeWork value = .ok written := by
  simp only [decodeWork, bind_eq_ok, raiseIf_eq_ok, exists_const, pure_eq_ok, not_not] at decoded
  obtain ⟨length, positive, rfl⟩ := decoded
  have bounded := BigEndian.ofBytes_lt written
  rw [length] at bounded
  rw [encodeWork_eq_ok, Int.toNat_natCast]
  refine ⟨⟨by omega, by exact_mod_cast bounded⟩, ?_⟩
  rw [← length, BigEndian.toBytes_ofBytes]

variable [Platform]

/-! ## Blocks -/

/-- **Transaction rows that are accepted are those of the decoded body.** -/
theorem bodyRows_of_decodeTransactionRows {blockHash : Bytes} : ∀ {rows : List TransactionRow}
    {position : Nat} {transactions : List Transaction},
    decodeTransactionRows position rows = .ok transactions →
      (∀ row ∈ rows, row.blockHash = blockHash) →
      bodyRows blockHash position transactions = .ok rows
  | [], position, transactions, decoded, _ => by
      cases decoded
      rfl
  | row :: rest, position, transactions, decoded, named => by
      simp only [decodeTransactionRows, bind_eq_ok, raiseIf_eq_ok, exists_const, exactBlob_eq_ok,
        pure_eq_ok, not_not] at decoded
      obtain ⟨here, tx, txOk, txid, ⟨-, rfl⟩, txid', txidOk, rfl, others, othersOk, rfl⟩ := decoded
      have later := bodyRows_of_decodeTransactionRows othersOk fun other member =>
        named other (List.mem_cons_of_mem _ member)
      have own : row.blockHash = blockHash := named row List.mem_cons_self
      have values : transactionValues blockHash position tx = .ok row := by
        simp only [transactionValues, txidOk, Transaction.toBytes_of_fromBytes txOk, ok_bind,
          pure_eq_ok, ← own, ← here]
      rw [bodyRows, values, ok_bind, later]
      rfl

/-- What a row of `blocks` holds when a block is decoded from it. -/
structure HoldsBlock (tables : Tables) (row : BlockRow) (block : Block) : Prop where
  hash_ok : block.blockHash = .ok row.blockHash
  header_ok : block.header.toBytes = .ok row.headerBytes
  reward_ok : block.rewardTransaction.toBytes = .ok row.rewardBytes
  body_ok : bodyRows row.blockHash 0 block.transactions = .ok (tables.transactionRows row.blockHash)

/-- **A row from which a block is decoded holds the canonical bytes of the block.** -/
theorem HoldsBlock.of_decodeBlockRow {tables : Tables} {row : BlockRow} {block : Block}
    (decoded : decodeBlockRow tables row = .ok block) : HoldsBlock tables row block := by
  simp only [decodeBlockRow, decodeHeads, decodeBody, bind_eq_ok, rethrow_eq_ok, raiseIf_eq_ok,
    exists_const, pure_eq_ok, not_not] at decoded
  obtain ⟨heads, ⟨-, -, header, headerOk, reward, rewardOk, rfl⟩, transactions, transactionsOk, hash,
    hashOk, rfl, root, -, -, rfl⟩ := decoded
  refine ⟨hashOk, BlockHeader.toBytes_of_fromBytes headerOk,
    RewardTransaction.toBytes_of_fromBytes rewardOk, ?_⟩
  apply bodyRows_of_decodeTransactionRows transactionsOk
  intro other member
  rw [Tables.transactionRows, List.mem_insertionSort, List.mem_filter, decide_eq_true_eq] at member
  exact member.2

omit [Platform] in
/-- What a row of `blocks` holds when a record is read from it. -/
theorem recordFromRow_eq_ok {row : BlockRow} {record : BlockRecord}
    (read : recordFromRow row = .ok record) :
    record.blockHash = row.blockHash ∧ record.parentHash = row.parentHash ∧
      encodeU64 record.height = .ok row.height ∧
      encodeWork record.cumulativeWork = .ok row.cumulativeWork ∧
      encodeU64 record.totalSupplyAtoms = .ok row.issuedSupplyAtoms := by
  simp only [recordFromRow, bind_eq_ok, exactBlob_eq_ok, pure_eq_ok] at read
  obtain ⟨parent, parentOk, hash, ⟨-, rfl⟩, height, heightOk, work, workOk, supply, supplyOk, rfl⟩ :=
    read
  have sameParent : parent = row.parentHash := by
    cases named : row.parentHash with
    | none =>
        rw [named] at parentOk
        cases parentOk
        rfl
    | some stored =>
        simp only [named, parentFromRow, map_eq_ok, exactBlob_eq_ok] at parentOk
        obtain ⟨_, ⟨-, rfl⟩, rfl⟩ := parentOk
        rfl
  exact ⟨rfl, sameParent, encodeU64_of_decodeStoredU64 heightOk, encodeWork_of_decodeWork workOk,
    encodeU64_of_decodeStoredU64 supplyOk⟩

/-- **A row that is accepted is the row of its block and its record.** -/
theorem blockValues_of_decoded {tables : Tables} {row : BlockRow} {block : Block}
    {record : BlockRecord} (holds : HoldsBlock tables row block)
    (read : recordFromRow row = .ok record) :
    blockValues row.blockHash block record = .ok { row with acceptanceOrder := 0 } := by
  obtain ⟨-, parentEq, heightOk, workOk, supplyOk⟩ := recordFromRow_eq_ok read
  simp only [blockValues, heightOk, workOk, supplyOk, holds.header_ok, holds.reward_ok, parentEq,
    ok_bind]
  rfl

/-! ## Derived rows -/

/-- **A canonical index that is accepted is the one of the active chain.** -/
theorem canonicalValues_of_checkCanonical : ∀ {rows : List CanonicalRow} {blocks : List Block},
    SQLiteChainStorage.checkCanonical rows blocks = .ok () → rows.length = blocks.length →
      blocks.mapM canonicalValues = .ok rows
  | [], [], _, _ => rfl
  | [], _ :: _, _, lengths => by cases lengths
  | _ :: _, [], _, lengths => by cases lengths
  | row :: rows, block :: blocks, checked, lengths => by
      simp only [SQLiteChainStorage.checkCanonical, bind_eq_ok, raiseIf_eq_ok, exists_const,
        exactBlob_eq_ok, not_or, not_not] at checked
      obtain ⟨height, heightOk, hash, ⟨-, rfl⟩, hash', hashOk, ⟨rfl, rfl⟩, rest⟩ := checked
      have later := canonicalValues_of_checkCanonical rest (by simpa using lengths)
      have values : canonicalValues block = .ok row := by
        simp only [canonicalValues, encodeU64_of_decodeStoredU64 heightOk, hashOk, ok_bind]
        rfl
      rw [List.mapM_cons, values, ok_bind, later]
      rfl

omit [Platform] in
/-- **Accounts that are accepted are written as they are stored.** -/
theorem accountValues_of_decoded {row : AccountRow} {item : Text × Account}
    (decoded : (do
      let balance ← decodeStoredU64 row.balanceAtoms "account balance"
      let nonce ← decodeStoredU64 row.nonce "account nonce"
      let account ← rethrow (reraiseAs ErrorClass.isValueError .storageIntegrityError
        "stored account data is invalid") (Account.new balance nonce)
      return (row.address, account)) = .ok item) : accountValues item = .ok row := by
  simp only [bind_eq_ok, rethrow_eq_ok, pure_eq_ok, Account.new_eq_ok] at decoded
  obtain ⟨balance, balanceOk, nonce, nonceOk, account, ⟨rfl, rfl⟩, rfl⟩ := decoded
  simp only [accountValues, encodeU64_of_decodeStoredU64 balanceOk,
    encodeU64_of_decodeStoredU64 nonceOk, ok_bind]
  rfl

end OurCoin
