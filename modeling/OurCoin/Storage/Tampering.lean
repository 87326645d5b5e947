import OurCoin.Node.Greedy
import OurCoin.Storage.Detection
import OurCoin.Tree.BodyShape
import OurCoin.Wire.Faults

/-!
# Reading a block from altered rows

What `get_block_by_hash` and `get_canonical_block_by_height` return when the rows of `blocks`
and `block_transactions` were altered.

* A row is decoded exactly when it spells a block (`decodeBlockRow_eq_ok`), and otherwise the
  decoder raises a `StorageIntegrityError` (`decodeBlockRow_raises`).
* The block that is decoded under a hash has the header, the reward and the tree of the block
  that was persisted under it (`Spells.sameTree`). Its transactions may differ: the root that
  the decoder recomputes does not tell a body from the body padded by copies of its last
  transactions.
* So the reads show every alteration exactly when the row of the block is there and its
  transaction rows do not pad the body (`tamperEvident_iff`).
-/

set_option autoImplicit false

namespace OurCoin

open Raising Transactions

variable [Platform]

/-! ## Decoding -/

/-- The block that a row and its transaction rows spell. -/
structure Spells (tables : Tables) (row : BlockRow) (block : Block) : Prop where
  header : BlockHeader.fromBytes row.headerBytes = .ok block.header
  reward : RewardTransaction.fromBytes row.rewardBytes = .ok block.rewardTransaction
  transactions : decodeTransactionRows 0 (tables.transactionRows row.blockHash) =
    .ok block.transactions
  hash_ok : block.blockHash = .ok row.blockHash
  root_ok : transactionsRoot block.rewardTransaction block.transactions =
    .ok block.header.transactionsRoot

/-- **A row is decoded to the block that it spells.** -/
theorem decodeBlockRow_eq_ok {tables : Tables} {row : BlockRow} {block : Block} :
    decodeBlockRow tables row = .ok block ↔ Spells tables row block := by
  simp only [decodeBlockRow, decodeHeads, decodeBody, bind_eq_ok, rethrow_eq_ok, raiseIf_eq_ok,
    exists_const, exactBlob_eq_ok, pure_eq_ok, not_not]
  constructor
  · rintro ⟨_, ⟨-, -, header, headerOk, reward, rewardOk, rfl⟩, transactions, transactionsOk, hash,
      hashOk, rfl, root, rootOk, rfl, rfl⟩
    exact ⟨headerOk, rewardOk, transactionsOk, hashOk, rootOk⟩
  · rintro ⟨headerOk, rewardOk, transactionsOk, hashOk, rootOk⟩
    exact ⟨_, ⟨_, ⟨BlockHeader.length_blockHash hashOk, rfl⟩, _, headerOk, _, rewardOk, rfl⟩, _,
      transactionsOk, _, hashOk, rfl, _, rootOk, rfl, rfl⟩

/-- The transactions that rows spell are read back from their bytes. -/
theorem readsBack_of_decodeTransactionRows : ∀ {rows : List TransactionRow} {position : Nat}
    {transactions : List Transaction}, decodeTransactionRows position rows = .ok transactions →
      ∀ tx ∈ transactions, ReadsBack Transaction.toBytes Transaction.fromBytes tx
  | [], _, _, decoded, tx, member => by
      cases decoded
      cases member
  | row :: rest, position, _, decoded, tx, member => by
      simp only [decodeTransactionRows, bind_eq_ok, raiseIf_eq_ok, exists_const, pure_eq_ok] at decoded
      obtain ⟨-, first, firstOk, _, -, _, -, -, others, othersOk, rfl⟩ := decoded
      rcases List.mem_cons.mp member with rfl | later
      · exact ⟨row.transactionBytes, Transaction.toBytes_of_fromBytes firstOk, firstOk⟩
      · exact readsBack_of_decodeTransactionRows othersOk tx later

/-- What is spelled is read back from its bytes. -/
theorem Spells.rereads {tables : Tables} {row : BlockRow} {block : Block}
    (spells : Spells tables row block) : block.Rereads where
  header := ⟨_, BlockHeader.toBytes_of_fromBytes spells.header, spells.header⟩
  reward := ⟨_, RewardTransaction.toBytes_of_fromBytes spells.reward, spells.reward⟩
  transactions := readsBack_of_decodeTransactionRows spells.transactions
  root_ok := spells.root_ok

/-! ## What the decoder raises -/

/-- A fault that `_decode_block_row` reports as an error of the storage. -/
def BlockFault (e : Raised) : Prop :=
  e.cls = .blockEncodingError ∨ e.cls = .transactionError ∨ e.cls = .storageIntegrityError

omit [Platform] in
theorem BlockFault.reported {α : Type} {x : Except Raised α}
    (only : RaisesOnly BlockFault x) :
    RaisesOnly (fun e => e.cls = .storageIntegrityError) (rethrow brokenBlock x) := by
  apply RaisesOnly.rethrow
  intro e raised
  rcases only e raised with encoding | transaction | integrity
  · simp [brokenBlock, reraiseAs, encoding]
  · simp [brokenBlock, reraiseAs, transaction]
  · simp [brokenBlock, reraiseAs, integrity]

omit [Platform] in
theorem exactBlob_raises (value : Bytes) (length : Nat) (fieldName : String) :
    RaisesOnly (fun e => e.cls = .storageIntegrityError) (exactBlob value length fieldName) := by
  rw [exactBlob]
  exact .bind (.raiseIf rfl) fun _ _ => .pure _

theorem decodeHeads_raises (row : BlockRow) :
    RaisesOnly (fun e => e.cls = .storageIntegrityError) (decodeHeads row) := by
  rw [decodeHeads]
  refine .bind (exactBlob_raises _ _ _) fun _ _ => BlockFault.reported ?_
  refine .bind ((BlockHeader.fromBytes_raises _).mono fun _ cls => .inl cls) fun _ _ => ?_
  exact .bind ((RewardTransaction.fromBytes_raises _).mono fun _ cls => .inl cls) fun _ _ => .pure _

/-- Bytes that were decoded can be hashed. -/
theorem exists_txid_of_fromBytes {encoded : Bytes} {tx : Transaction}
    (decoded : Transaction.fromBytes encoded = .ok tx) : tx.txid = .ok (sha256Digest encoded) := by
  rw [Transaction.txid, Transaction.toBytes_of_fromBytes decoded]
  rfl

theorem decodeTransactionRows_raises : ∀ (rows : List TransactionRow) (position : Nat),
    RaisesOnly BlockFault (decodeTransactionRows position rows)
  | [], _ => .of_ok rfl
  | row :: rest, position => by
      rw [decodeTransactionRows]
      refine .bind (.raiseIf (.inr (.inr rfl))) fun _ _ => ?_
      refine .bind ((Transaction.fromBytes_raises _).mono fun _ cls => .inr (.inl cls))
        fun tx txOk => ?_
      refine .bind ((exactBlob_raises _ _ _).mono fun _ cls => .inr (.inr cls)) fun _ _ => ?_
      refine .bind (.of_ok (exists_txid_of_fromBytes txOk)) fun _ _ => ?_
      refine .bind (.raiseIf (.inr (.inr rfl))) fun _ _ => ?_
      exact .bind (decodeTransactionRows_raises rest _) fun _ _ => .pure _

/-- A body that spells no block with its heads is refused with a `StorageIntegrityError`. -/
theorem decodeBody_raises {row : BlockRow} {heads : BlockHeader × RewardTransaction}
    (headsOk : decodeHeads row = .ok heads) (transactionRows : List TransactionRow) :
    RaisesOnly (fun e => e.cls = .storageIntegrityError) (decodeBody row heads transactionRows) := by
  simp only [decodeHeads, bind_eq_ok, rethrow_eq_ok, pure_eq_ok] at headsOk
  obtain ⟨-, -, header, headerOk, reward, rewardOk, rfl⟩ := headsOk
  rw [decodeBody]
  apply RaisesOnly.bind (BlockFault.reported (decodeTransactionRows_raises _ _))
  intro transactions transactionsOk
  rw [rethrow_eq_ok] at transactionsOk
  -- What was decoded can be encoded, so the hash and the root exist.
  have hashOk : Block.blockHash ⟨header, reward, transactions⟩ =
      .ok (sha256Digest row.headerBytes) := by
    rw [Block.blockHash, BlockHeader.blockHash, BlockHeader.toBytes_of_fromBytes headerOk]
    rfl
  have leavesOk : Block.leaves ⟨header, reward, transactions⟩ =
      .ok ((bodyLeaves transactions).map (leafId (sha256Digest row.rewardBytes))) := by
    refine Block.leaves_eq_ok.mpr ⟨_, ?_, ?_, rfl⟩
    · rw [RewardTransaction.txid, RewardTransaction.toBytes_of_fromBytes rewardOk]
      rfl
    · intro tx member
      obtain ⟨bytes, -, decoded⟩ := readsBack_of_decodeTransactionRows transactionsOk tx member
      exact ⟨_, exists_txid_of_fromBytes decoded⟩
  obtain ⟨root, merkleOk⟩ := exists_merkleRoot (Block.length_leaf leavesOk)
  have rootOk := transactionsRoot_eq_ok.mpr ⟨_, leavesOk, merkleOk⟩
  refine .bind (.of_ok hashOk) fun _ _ => .bind (.raiseIf rfl) fun _ _ => ?_
  refine .bind (.of_ok (rethrow_eq_ok.mpr rootOk)) fun _ _ => ?_
  exact .bind (.raiseIf rfl) fun _ _ => .pure _

/-- **A row that spells no block is refused with a `StorageIntegrityError`.** -/
theorem decodeBlockRow_raises (tables : Tables) (row : BlockRow) :
    RaisesOnly (fun e => e.cls = .storageIntegrityError) (decodeBlockRow tables row) := by
  rw [decodeBlockRow]
  apply RaisesOnly.bind (decodeHeads_raises row)
  intro heads headsOk
  exact decodeBody_raises headsOk _

/-! ## The two reads -/

/-- The block of a hash in the tables, or an error when no row has the hash. -/
def readBlock (tables : Tables) (missing : Raised) (hash : Bytes) : Except Raised Block :=
  match tables.blockRow? hash with
  | none => .error missing
  | some row => decodeBlockRow tables row

omit [Platform] in
theorem blockHash_of_blockRow? {tables : Tables} {hash : Bytes} {row : BlockRow}
    (found : tables.blockRow? hash = some row) : row.blockHash = hash := by
  simpa using List.find?_some found

theorem readBlock_eq_ok {tables : Tables} {missing : Raised} {hash : Bytes} {block : Block} :
    readBlock tables missing hash = .ok block ↔
      ∃ row, tables.blockRow? hash = some row ∧ Spells tables row block := by
  rw [readBlock]
  split
  · rename_i none
    simp [none]
  · rename_i row found
    simp [found, decodeBlockRow_eq_ok]

/-- A block that is read under a hash has it. -/
theorem blockHash_of_readBlock {tables : Tables} {missing : Raised} {hash : Bytes} {block : Block}
    (read : readBlock tables missing hash = .ok block) : block.blockHash = .ok hash := by
  obtain ⟨row, found, spells⟩ := readBlock_eq_ok.mp read
  rw [← blockHash_of_blockRow? found]
  exact spells.hash_ok

/-- A read that finds a row raises a `StorageIntegrityError` or returns a block. -/
theorem readBlock_raises {tables : Tables} {hash : Bytes} (held : tables.hasBlock hash)
    (missing : Raised) :
    RaisesOnly (fun e => e.cls = .storageIntegrityError) (readBlock tables missing hash) := by
  rw [readBlock]
  split
  · rename_i none
    obtain ⟨row, member, named⟩ := List.mem_map.mp held
    exact absurd (decide_eq_true named) (List.find?_eq_none.mp none row member)
  · exact decodeBlockRow_raises _ _

/-- The error of a read of a hash that is not stored. -/
def notStored : Raised := ⟨.blockNotFoundError, "block is not stored"⟩

/-- The error of a read of a height that the canonical index does not lead to a block. -/
def heightNotStored : Raised :=
  ⟨.blockNotFoundError, "canonical block height is not stored"⟩

theorem getBlockByHash_eq (data : Tables) {hash : Bytes} (length : hash.length = 32) :
    (SQLiteChainStorage.onTables data).getBlockByHash hash = readBlock data notStored hash := by
  have row : (SQLiteChainStorage.onTables data).blockRow hash =
      match data.blockRow? hash with
      | none => .error notStored
      | some row => .ok row := by
    rw [SQLiteChainStorage.blockRow, exactBlob_eq_ok.mpr ⟨length, rfl⟩, ok_bind]
    rfl
  have opened : (SQLiteChainStorage.onTables data).ensureOpen = .ok () := rfl
  rw [SQLiteChainStorage.getBlockByHash, opened, ok_bind, row, readBlock]
  cases data.blockRow? hash with
  | none => rfl
  | some row => rfl

/-- What the canonical index has for a height. -/
def indexed (data : Tables) (height : Int) (hash : Bytes) : Prop :=
  ∃ encoded row, (0 ≤ height ∧ height ≤ u64Max) ∧ encodeU64 height = .ok encoded ∧
    data.canonicalChain.find? (fun row => row.height = encoded) = some row ∧ row.blockHash = hash

theorem getCanonicalBlockByHeight_eq {data : Tables} {height : Int} {hash : Bytes}
    (found : indexed data height hash) :
    (SQLiteChainStorage.onTables data).getCanonicalBlockByHeight height =
      readBlock data heightNotStored hash := by
  obtain ⟨encoded, row, range, encodedOk, isRow, rfl⟩ := found
  have opened : (SQLiteChainStorage.onTables data).ensureOpen = .ok () := rfl
  have fits : raiseIf (¬ (0 ≤ height ∧ height ≤ u64Max))
      (⟨.storageError, "block height must be an unsigned 64-bit integer"⟩ : Raised) = .ok () :=
    raiseIf_eq_ok.mpr (not_not.mpr range)
  have tablesEq : (SQLiteChainStorage.onTables data).tables = data := rfl
  rw [SQLiteChainStorage.getCanonicalBlockByHeight, opened, ok_bind, fits, ok_bind, encodedOk,
    ok_bind, tablesEq, isRow, readBlock]
  rfl

/-- A block that is read by its height is indexed there. -/
theorem indexed_of_getCanonicalBlockByHeight {data : Tables} {height : Int} {block : Block}
    (read : (SQLiteChainStorage.onTables data).getCanonicalBlockByHeight height = .ok block) :
    ∃ hash, indexed data height hash ∧ block.blockHash = .ok hash := by
  simp only [SQLiteChainStorage.getCanonicalBlockByHeight, bind_eq_ok, raiseIf_eq_ok,
    exists_const, not_not] at read
  obtain ⟨_, -, range, encoded, encodedOk, joined⟩ := read
  have tablesEq : (SQLiteChainStorage.onTables data).tables = data := rfl
  rw [tablesEq] at joined
  cases isRow : data.canonicalChain.find? (fun row => row.height = encoded) with
  | none =>
      rw [isRow] at joined
      cases joined
  | some row =>
      have isIndexed : indexed data height row.blockHash :=
        ⟨encoded, row, range, encodedOk, isRow, rfl⟩
      refine ⟨row.blockHash, isIndexed, ?_⟩
      rw [isRow] at joined
      have read : readBlock data heightNotStored row.blockHash = .ok block := joined
      exact blockHash_of_readBlock read

/-! ## Altered rows -/

/-- A database into which accepted blocks were persisted, with the chain that accepted them.
The statements of each call meet the given faults. -/
inductive Produced : Tables → Chain → Prop
  | fresh {data : Tables} {chain : Chain} : Chain.init testnet = .ok chain →
      SQLiteChainStorage.openFresh testnet = .ok (.onTables data) → Produced data chain
  | persist {data data' : Tables} {chain grown : Chain} {block : Block} {update : ChainUpdate}
      {faults : List Fault} {inserted : Bool} : Produced data chain →
      chain.addBlock block = (.ok update, grown) →
      (SQLiteChainStorage.onTables data).persistChainUpdate grown update faults =
        (.ok inserted, .onTables data') → Produced data' grown

theorem Produced.represents {data : Tables} {chain : Chain} (produced : Produced data chain) :
    chain.Reachable ∧ Represents data chain := by
  induction produced with
  | @fresh data chain started opened =>
      obtain ⟨data', same, represents⟩ := Represents.openFresh opened
      obtain rfl : data = data' := congrArg SQLiteChainStorage.tables same
      refine ⟨.init started, ?_⟩
      rw [Chain.init_testnet, Except.ok.injEq] at started
      rwa [← started]
  | @persist data data' chain grown block update faults inserted before added persisted ih =>
      obtain ⟨reachable, represents⟩ := ih
      obtain ⟨data'', same, represents'⟩ := represents.persist rfl reachable.refines added persisted
      obtain rfl : data' = data'' := congrArg SQLiteChainStorage.tables same
      refine ⟨?_, represents'⟩
      have grows := reachable.addBlock block
      rwa [added] at grows

/-- An accepted block can always be persisted. -/
theorem Produced.accept {data : Tables} {chain : Chain} (produced : Produced data chain)
    {block : Block} {update : ChainUpdate} (accepted : (chain.addBlock block).1 = .ok update) :
    ∃ data', Produced data' (chain.addBlock block).2 := by
  obtain ⟨reachable, represents⟩ := produced.represents
  have added : chain.addBlock block = (.ok update, (chain.addBlock block).2) :=
    Prod.ext accepted rfl
  obtain ⟨inserted, data', persisted, -⟩ := represents.exists_persist reachable added
  exact ⟨data', produced.persist added persisted⟩

/-- The tables with other rows in `blocks` and `block_transactions`. -/
def Tables.altered (data : Tables) (blocks : List BlockRow)
    (blockTransactions : List TransactionRow) : Tables :=
  { data with blocks, blockTransactions }

/-- The row of a block holds its header and its reward, and its transaction rows are those
of another body with the same tree. -/
structure Padded (data : Tables) (hash : Bytes) (block : Block) (transactions : List Transaction) :
    Prop where
  exists_row : ∃ row, data.blockRow? hash = some row ∧
    block.header.toBytes = .ok row.headerBytes ∧
    block.rewardTransaction.toBytes = .ok row.rewardBytes
  rows_eq : bodyRows hash 0 transactions = .ok (data.transactionRows hash)
  differs : transactions ≠ block.transactions
  same_tree : SameTree block.transactions transactions

/-- **The reads show how a block was altered**: what they return under its hash is the block,
and when its transaction rows differ, they raise a `StorageIntegrityError`. -/
structure TamperEvident (data altered : Tables) (hash : Bytes) (block : Block) : Prop where
  byHash_returns : ∀ read, (SQLiteChainStorage.onTables altered).getBlockByHash hash = .ok read →
    read = block
  byHeight_returns : ∀ height read,
    (SQLiteChainStorage.onTables altered).getCanonicalBlockByHeight height = .ok read →
      read.blockHash = .ok hash → read = block
  byHash_raises : altered.transactionRows hash ≠ data.transactionRows hash →
    ∃ e, (SQLiteChainStorage.onTables altered).getBlockByHash hash = .error e ∧
      e.cls = .storageIntegrityError
  byHeight_raises : altered.transactionRows hash ≠ data.transactionRows hash →
    ∀ height, indexed data height hash →
      ∃ e, (SQLiteChainStorage.onTables altered).getCanonicalBlockByHeight height = .error e ∧
        e.cls = .storageIntegrityError

/-! ## The block under a hash -/

/-- **The block that is read under the hash of another one has its header, its reward and its
tree.** -/
theorem sameTree_of_readBlock {data : Tables} {missing : Raised} {hash : Bytes} {block read : Block}
    (rereads : block.Rereads) (hashOk : block.blockHash = .ok hash)
    (readOk : readBlock data missing hash = .ok read)
    (free : CollisionFree fun x => block.HashInput x ∨ read.HashInput x) :
    block.header = read.header ∧ block.rewardTransaction = read.rewardTransaction ∧
      SameTree block.transactions read.transactions := by
  obtain ⟨row, found, spells⟩ := readBlock_eq_ok.mp readOk
  exact rereads.sameTree spells.rereads free hashOk (blockHash_of_readBlock readOk)

/-- The rows of a body determine it. -/
theorem transactions_eq_of_bodyRows {hash : Bytes} {transactions transactions' : List Transaction}
    {rows : List TransactionRow} (rowsOk : bodyRows hash 0 transactions = .ok rows)
    (readable : ∀ tx ∈ transactions, tx.Readable)
    (decoded : decodeTransactionRows 0 rows = .ok transactions') :
    transactions' = transactions :=
  Except.ok.inj (decoded.symm.trans (decodeTransactionRows_eq rowsOk readable))

/-- **A read that returns another block than the persisted one has found a padded body.** -/
theorem padded_of_readBlock {data : Tables} {missing : Raised} {hash : Bytes} {block read : Block}
    (rereads : block.Rereads) (hashOk : block.blockHash = .ok hash)
    (readOk : readBlock data missing hash = .ok read)
    (free : CollisionFree fun x => block.HashInput x ∨ read.HashInput x)
    (differs : read ≠ block) : Padded data hash block read.transactions := by
  obtain ⟨headers, rewards, same⟩ := sameTree_of_readBlock rereads hashOk readOk free
  obtain ⟨row, found, spells⟩ := readBlock_eq_ok.mp readOk
  obtain rfl := blockHash_of_blockRow? found
  have holds := HoldsBlock.of_decodeBlockRow (decodeBlockRow_eq_ok.mpr spells)
  refine ⟨⟨row, found, headers ▸ holds.header_ok, rewards ▸ holds.reward_ok⟩, holds.body_ok, ?_, same⟩
  intro bodies
  apply differs
  calc read = ⟨read.header, read.rewardTransaction, read.transactions⟩ := rfl
    _ = block := by rw [← headers, ← rewards, bodies]

/-- **A padded body is read without an error.** -/
theorem Padded.readBlock_eq {data : Tables} {hash : Bytes} {block : Block}
    {transactions : List Transaction} (padded : Padded data hash block transactions)
    (wellMade : block.WellMade) (hashOk : block.blockHash = .ok hash) (missing : Raised) :
    readBlock data missing hash = .ok { block with transactions } := by
  obtain ⟨row, found, headerOk, rewardOk⟩ := padded.exists_row
  obtain rfl := blockHash_of_blockRow? found
  refine readBlock_eq_ok.mpr ⟨row, found, ?_⟩
  exact {
    header := BlockHeader.fromBytes_toBytes wellMade.header_readable headerOk
    reward := RewardTransaction.fromBytes_toBytes wellMade.reward_readable rewardOk
    transactions := decodeTransactionRows_eq padded.rows_eq fun tx member =>
      wellMade.transactions_readable tx (padded.same_tree.mem_iff.mpr member)
    hash_ok := hashOk
    root_ok := transactionsRoot_of_sameTree padded.same_tree wellMade.root_ok }

/-! ## When the reads show an alteration -/

section Altered

variable {data altered : Tables} {hash : Bytes} {block : Block} (wellMade : block.WellMade)
  (hashOk : block.blockHash = .ok hash)
  (persisted : bodyRows hash 0 block.transactions = .ok (data.transactionRows hash))
  (free : ∀ read, readBlock altered notStored hash = .ok read →
    CollisionFree fun x => block.HashInput x ∨ read.HashInput x)

include wellMade hashOk persisted free

/-- **What is read is the block**, unless a padded body was found. -/
theorem eq_of_readBlock (condition : altered.transactionRows hash = data.transactionRows hash ∨
    ∀ transactions, ¬ Padded altered hash block transactions) {missing : Raised} {read : Block}
    (readOk : readBlock altered missing hash = .ok read) : read = block := by
  by_contra differs
  have readOk' : readBlock altered notStored hash = .ok read :=
    readBlock_eq_ok.mpr (readBlock_eq_ok.mp readOk)
  have padded := padded_of_readBlock (wellMade.rereads hashOk) hashOk readOk (free read readOk')
    differs
  rcases condition with untouched | unpadded
  · have decoded := decodeTransactionRows_eq padded.rows_eq fun tx member =>
      wellMade.transactions_readable tx (padded.same_tree.mem_iff.mpr member)
    rw [untouched] at decoded
    exact padded.differs
      (transactions_eq_of_bodyRows persisted wellMade.transactions_readable decoded)
  · exact unpadded _ padded

/-- A read of altered rows returns nothing, unless a padded body was found. -/
theorem raises_of_unpadded (held : altered.hasBlock hash)
    (unpadded : ∀ transactions, ¬ Padded altered hash block transactions)
    (differs : altered.transactionRows hash ≠ data.transactionRows hash) (missing : Raised) :
    ∃ e, readBlock altered missing hash = .error e ∧ e.cls = .storageIntegrityError := by
  cases outcome : readBlock altered missing hash with
  | error e => exact ⟨e, rfl, readBlock_raises held missing e outcome⟩
  | ok read =>
      obtain ⟨row, found, spells⟩ := readBlock_eq_ok.mp outcome
      have same := eq_of_readBlock wellMade hashOk persisted free (.inr unpadded) outcome
      have holds := HoldsBlock.of_decodeBlockRow (decodeBlockRow_eq_ok.mpr spells)
      have written := holds.body_ok
      rw [blockHash_of_blockRow? found, same, persisted, Except.ok.injEq] at written
      exact absurd written.symm differs

end Altered

/-- A block without a row is not found, which is no `StorageIntegrityError`. -/
theorem hasBlock_of_raises {altered : Tables} {hash : Bytes} {e : Raised}
    (raised : readBlock altered notStored hash = .error e)
    (integrity : e.cls = .storageIntegrityError) : altered.hasBlock hash := by
  by_contra missing
  have none : altered.blockRow? hash = none := by
    rw [Tables.blockRow?, List.find?_eq_none]
    intro row member named
    exact missing (List.mem_map.mpr ⟨row, member, of_decide_eq_true named⟩)
  rw [readBlock, none] at raised
  cases raised
  cases integrity

/-- **The reads show every alteration exactly when the transaction rows of the block are
untouched, or its row is there and its transaction rows do not pad its body.** -/
theorem tamperEvident_iff {data : Tables} {chain : Chain} (produced : Produced data chain)
    {hash : Bytes} {entry : ChainEntry} (stored : chain.entries.get? hash = some entry)
    (blocks : List BlockRow) (rows : List TransactionRow)
    (free : ∀ read,
      (SQLiteChainStorage.onTables (data.altered blocks rows)).getBlockByHash hash = .ok read →
        CollisionFree fun x => entry.block.HashInput x ∨ read.HashInput x) :
    TamperEvident data (data.altered blocks rows) hash entry.block ↔
      (data.altered blocks rows).transactionRows hash = data.transactionRows hash ∨
        ((data.altered blocks rows).hasBlock hash ∧
          ∀ transactions, ¬ Padded (data.altered blocks rows) hash entry.block transactions) := by
  obtain ⟨reachable, represents⟩ := produced.represents
  have refines := reachable.refines
  have hashOk := refines.blockHash_ok stored
  have wellMade := refines.wellMade stored
  have length := BlockHeader.length_blockHash hashOk
  have persisted := represents.stores.transactionRows_eq chain.entries.nodupKeys
    (Dict.get?_eq_some.mp stored)
  dsimp only at persisted
  have sameIndex : ∀ height, indexed (data.altered blocks rows) height hash ↔
      indexed data height hash := fun height => Iff.rfl
  generalize data.altered blocks rows = altered at free sameIndex ⊢
  rw [getBlockByHash_eq altered length] at free
  have returns := fun condition => @eq_of_readBlock _ data altered hash entry.block wellMade hashOk
    persisted free condition
  have raises := raises_of_unpadded wellMade hashOk persisted free
  constructor
  · intro evident
    by_cases untouched : altered.transactionRows hash = data.transactionRows hash
    · exact .inl untouched
    · obtain ⟨e, raised, integrity⟩ := evident.byHash_raises untouched
      rw [getBlockByHash_eq altered length] at raised
      refine .inr ⟨hasBlock_of_raises raised integrity, fun transactions padded => ?_⟩
      rw [padded.readBlock_eq wellMade hashOk] at raised
      cases raised
  · intro condition
    refine ⟨?_, ?_, ?_, ?_⟩
    · intro read readOk
      rw [getBlockByHash_eq altered length] at readOk
      exact returns (condition.imp id And.right) readOk
    · intro height read readOk named
      obtain ⟨hash', isIndexed, named'⟩ := indexed_of_getCanonicalBlockByHeight readOk
      obtain rfl : hash = hash' := Except.ok.inj (named.symm.trans named')
      rw [getCanonicalBlockByHeight_eq isIndexed] at readOk
      exact returns (condition.imp id And.right) readOk
    · intro differs
      obtain ⟨held, unpadded⟩ := condition.resolve_left differs
      rw [getBlockByHash_eq altered length]
      exact raises held unpadded differs _
    · intro differs height isIndexed
      obtain ⟨held, unpadded⟩ := condition.resolve_left differs
      rw [getCanonicalBlockByHeight_eq ((sameIndex height).mpr isIndexed)]
      exact raises held unpadded differs _

/-! ## Every body with another list in its tree can be padded -/

/-- Transactions with bytes have rows. -/
theorem exists_bodyRows {hash : Bytes} : ∀ {transactions : List Transaction} (position : Nat),
    (∀ tx ∈ transactions, ReadsBack Transaction.toBytes Transaction.fromBytes tx) →
      ∃ rows, bodyRows hash position transactions = .ok rows
  | [], _, _ => ⟨[], rfl⟩
  | tx :: rest, position, each => by
      obtain ⟨bytes, bytesOk, -⟩ := each tx List.mem_cons_self
      obtain ⟨rows, rowsOk⟩ := exists_bodyRows (position + 1) fun other member =>
        each other (List.mem_cons_of_mem _ member)
      have txidOk : tx.txid = .ok (sha256Digest bytes) := by
        rw [Transaction.txid, bytesOk]
        rfl
      rw [bodyRows, transactionValues, txidOk, bytesOk, rowsOk]
      exact ⟨_, rfl⟩

theorem transactionRows_eq_of_bodyRows {data : Tables} {hash : Bytes}
    {transactions : List Transaction}
    (rowsOk : bodyRows hash 0 transactions = .ok data.blockTransactions) :
    data.transactionRows hash = data.blockTransactions := by
  obtain ⟨named, sorted⟩ := bodyRows_facts rowsOk
  have own : (data.blockTransactions.filter fun row => row.blockHash = hash) =
      data.blockTransactions :=
    List.filter_eq_self.mpr fun row member => decide_eq_true (named row member).1
  rw [Tables.transactionRows, own]
  exact List.Pairwise.insertionSort_eq sorted

/-- **The rows of a persisted block can be altered to spell any body with its tree.** -/
theorem Represents.exists_padding {data : Tables} {chain : Chain} (represents : Represents data chain)
    (refines : chain.Refines) {hash : Bytes} {entry : ChainEntry}
    (stored : chain.entries.get? hash = some entry) {transactions : List Transaction}
    (same : SameTree entry.block.transactions transactions)
    (differs : transactions ≠ entry.block.transactions) :
    ∃ rows, Padded (data.altered data.blocks rows) hash entry.block transactions := by
  have rereads := (refines.wellMade stored).rereads (refines.blockHash_ok stored)
  obtain ⟨rows, rowsOk⟩ := @exists_bodyRows _ hash transactions 0 fun tx member =>
    rereads.transactions tx (same.mem_iff.mpr member)
  obtain ⟨row, rowMem, written⟩ :=
    exists_of_forall₂ represents.stores.forall₂ (Dict.get?_eq_some.mp stored)
  obtain ⟨rowHash, -, -, -, -, headerOk, rewardOk⟩ := blockValues_eq_ok written
  have found : data.blockRow? hash = some row :=
    find?_eq_of_nodup represents.consistent.hash_nodup rowMem rowHash
  refine ⟨rows, ⟨row, found, headerOk, rewardOk⟩, ?_, differs, same⟩
  rw [@transactionRows_eq_of_bodyRows _ (data.altered data.blocks rows) _ _ rowsOk]
  exact rowsOk

/-- An accepted block is stored under its hash. -/
theorem Chain.Refines.exists_stored {chain : Chain} (refines : chain.Refines) {block : Block}
    {update : ChainUpdate} (accepted : (chain.addBlock block).1 = .ok update) {hash : Bytes}
    (hashOk : block.blockHash = .ok hash) :
    ∃ entry, (chain.addBlock block).2.entries.get? hash = some entry ∧ entry.block = block := by
  obtain ⟨entry, -, items, rfl, -⟩ := refines.addBlock_ok accepted
  have stored : (chain.addBlock entry.block).2.entries.get? entry.record.blockHash = some entry :=
    Dict.get?_eq_some.mpr (by rw [items]; simp)
  have named := (refines.addBlock entry.block).blockHash_ok stored
  rw [hashOk, Except.ok.injEq] at named
  rw [named]
  exact ⟨entry, stored, rfl⟩

/-! ## A padded body -/

namespace Tampering

open Payer

omit [Platform] in
/-- The two blocks are persisted one after the other. -/
theorem exists_produced : ∃ data, @Produced trustingPlatform data transfersChain := by
  obtain ⟨fresh, opened, -⟩ := @exists_openFresh trustingPlatform
  have produced := @Produced.fresh trustingPlatform _ _
    (@Chain.init_testnet trustingPlatform) opened
  obtain ⟨mined, produced⟩ :=
    @Produced.accept trustingPlatform _ _ produced _ _ minedBlock_accepted
  exact @Produced.accept trustingPlatform _ _ produced _ _ transfersBlock_accepted

/-- The body with a copy of its last transfer. -/
def paddedTransfers : List Transaction := [firstTransfer, secondTransfer, secondTransfer]

/-- The ID of the reward of the block. -/
def rewardId : Bytes :=
  (@RewardTransaction.txid trustingPlatform transfersBlock.rewardTransaction).toOption.getD []

/-- The ID of a transfer. -/
def transferId (tx : Transaction) : Bytes := @leafId trustingPlatform rewardId (some tx)

/-- The pairs of hashes that are combined for the root of the block. -/
def transferPairs : List (Bytes × Bytes) :=
  [(rewardId, transferId firstTransfer), (transferId secondTransfer, transferId secondTransfer),
    (merkleNode rewardId (transferId firstTransfer),
      merkleNode (transferId secondTransfer) (transferId secondTransfer))]

/-- The strings that are hashed for the block, and for the block with the copy. -/
def transferInputs : List Bytes :=
  [@BlockHeader.toBytes trustingPlatform transfersBlock.header,
    @RewardTransaction.toBytes trustingPlatform transfersBlock.rewardTransaction,
    @Transaction.toBytes trustingPlatform firstTransfer,
    @Transaction.toBytes trustingPlatform secondTransfer].map
      (fun encoded => encoded.toOption.getD []) ++
    transferPairs.map fun pair => merkleNodeDomain ++ pair.1 ++ pair.2

omit [Platform] in
/-- With and without the copy the same pairs are combined. -/
theorem mem_transferPairs {leaves : List Bytes}
    (isBody : leaves = [rewardId, transferId firstTransfer, transferId secondTransfer] ∨
      leaves = [rewardId, transferId firstTransfer, transferId secondTransfer,
        transferId secondTransfer]) {pair : Bytes × Bytes}
    (combined : MerkleTree.Combined merkleNode leaves pair) : pair ∈ transferPairs := by
  have rows : MerkleTree.pairUp leaves = transferPairs.take 2 := by
    rcases isBody with rfl | rfl
    · rfl
    · rfl
  obtain ⟨-, here | above⟩ := MerkleTree.combined_iff.mp combined
  · rw [rows] at here
    exact List.mem_of_mem_take here
  · rw [MerkleTree.level, rows] at above
    obtain ⟨-, here | above⟩ := MerkleTree.combined_iff.mp above
    · rw [List.mem_singleton.mp here]
      simp [transferPairs]
    · exact absurd above (MerkleTree.not_combined_singleton _ _)

omit [Platform] in
theorem mem_transferInputs {transactions : List Transaction}
    (isBody : transactions = transfersBlock.transactions ∨ transactions = paddedTransfers)
    {input : Bytes} (hashed : @Block.HashInput trustingPlatform
      { transfersBlock with transactions } input) : input ∈ transferInputs := by
  have written : ∀ {encoded : Except Raised Bytes}, encoded = .ok input →
      input = encoded.toOption.getD [] := by
    rintro _ rfl
    rfl
  rcases hashed with headerOk | rewardOk | ⟨member, bytesOk⟩ | ⟨leavesOk, combined⟩
  · rw [written headerOk]
    simp [transferInputs]
  · rw [written rewardOk]
    simp [transferInputs]
  · rename_i tx
    have named : tx = firstTransfer ∨ tx = secondTransfer := by
      rcases isBody with rfl | rfl
      · simpa [transfersBlock, payerBlock] using member
      · simpa [paddedTransfers] using member
    rw [written bytesOk]
    rcases named with rfl | rfl
    · simp [transferInputs]
    · simp [transferInputs]
  · obtain ⟨id, idOk, -, rfl⟩ := (@Block.leaves_eq_ok trustingPlatform _ _).mp leavesOk
    have rewardEq : id = rewardId := by
      rw [rewardId, idOk]
      rfl
    subst rewardEq
    apply List.mem_append_right
    apply List.mem_map_of_mem
    apply mem_transferPairs _ combined
    rcases isBody with rfl | rfl
    · exact .inl rfl
    · exact .inr rfl

omit [Platform] in
theorem transferInputs_nodup : (transferInputs.map sha256Digest).Nodup := by
  decide +kernel

omit [Platform] in
/-- No two of these strings have one hash. -/
theorem transfers_collisionFree {transactions : List Transaction}
    (isBody : transactions = transfersBlock.transactions ∨ transactions = paddedTransfers) :
    CollisionFree fun x => @Block.HashInput trustingPlatform transfersBlock x ∨
      @Block.HashInput trustingPlatform { transfersBlock with transactions } x := by
  have inside : ∀ {x}, (@Block.HashInput trustingPlatform transfersBlock x ∨
      @Block.HashInput trustingPlatform { transfersBlock with transactions } x) →
        x ∈ transferInputs := by
    rintro x (own | other)
    · exact mem_transferInputs (.inl rfl) own
    · exact mem_transferInputs isBody other
  intro x y xIn yIn same
  exact List.inj_on_of_nodup_map transferInputs_nodup (inside xIn) (inside yIn) same

omit [Platform] in
/-- A database with the two blocks, and rows that add the copy to it. -/
theorem exists_padded : ∃ data entry rows,
    @Produced trustingPlatform data transfersChain ∧
    transfersChain.entries.get? transfersHash = some entry ∧ entry.block = transfersBlock ∧
    @Padded trustingPlatform (data.altered data.blocks rows) transfersHash entry.block
      paddedTransfers ∧
    @readBlock trustingPlatform (data.altered data.blocks rows) notStored transfersHash =
      .ok { transfersBlock with transactions := paddedTransfers } := by
  obtain ⟨data, produced⟩ := exists_produced
  obtain ⟨reachable, represents⟩ := @Produced.represents trustingPlatform _ _ produced
  have refines := @Chain.Reachable.refines trustingPlatform _ reachable
  have mined : @Chain.Refines trustingPlatform minedChain :=
    @Chain.Reachable.refines trustingPlatform _ (@Chain.Reachable.addBlock
      trustingPlatform _ minedBlock (@Chain.Reachable.init trustingPlatform _
        (@Chain.init_testnet trustingPlatform)))
  obtain ⟨entry, stored, blockEq⟩ := @Chain.Refines.exists_stored trustingPlatform
    minedChain mined transfersBlock _ transfersBlock_accepted transfersHash transfersBlock_hash
  rw [← transfersChain] at stored
  have differs : paddedTransfers ≠ entry.block.transactions := by
    rw [blockEq]
    intro same
    exact absurd (congrArg List.length same) (by decide)
  have same : SameTree entry.block.transactions paddedTransfers := by
    rw [blockEq]
    rfl
  obtain ⟨rows, padded⟩ := @Represents.exists_padding trustingPlatform _ _ represents refines
    _ _ stored _ same differs
  refine ⟨data, entry, rows, produced, stored, blockEq, padded, ?_⟩
  rw [← blockEq]
  exact @Padded.readBlock_eq trustingPlatform _ _ _ _ padded
    (@Chain.Refines.wellMade trustingPlatform _ refines _ _ stored)
    (@Chain.Refines.blockHash_ok trustingPlatform _ _ _ refines stored) _

omit [Platform] in
theorem free_of_readBlock {altered : Tables} {read : Block}
    (found : @readBlock trustingPlatform altered notStored transfersHash =
      .ok { transfersBlock with transactions := paddedTransfers })
    (readOk : @SQLiteChainStorage.getBlockByHash trustingPlatform
      (SQLiteChainStorage.onTables altered) transfersHash = .ok read) :
    CollisionFree fun x => @Block.HashInput trustingPlatform transfersBlock x ∨
      @Block.HashInput trustingPlatform read x := by
  rw [@getBlockByHash_eq trustingPlatform _ _ (by decide), found, Except.ok.injEq] at readOk
  rw [← readOk]
  exact transfers_collisionFree (.inr rfl)

omit [Platform] in
theorem tamperEvident_iff_transfers : ∃ data entry rows,
    @Produced trustingPlatform data transfersChain ∧
    transfersChain.entries.get? transfersHash = some entry ∧
    (@TamperEvident trustingPlatform data (data.altered data.blocks rows) transfersHash
        entry.block ↔
      (data.altered data.blocks rows).transactionRows transfersHash =
          data.transactionRows transfersHash ∨
        ((data.altered data.blocks rows).hasBlock transfersHash ∧
          ∀ transactions, ¬ @Padded trustingPlatform (data.altered data.blocks rows)
            transfersHash entry.block transactions)) := by
  obtain ⟨data, entry, rows, produced, stored, blockEq, -, found⟩ := exists_padded
  refine ⟨data, entry, rows, produced, stored, ?_⟩
  exact @tamperEvident_iff trustingPlatform _ _ produced _ _ stored data.blocks rows
    fun read readOk => blockEq ▸ free_of_readBlock found readOk

omit [Platform] in
/-- **Not every alteration shows**: a copy of the last of two transfers, in a third row, is
read as part of the block. -/
theorem not_tamperEvident : ¬ ∀ (data : Tables) (chain : Chain),
    @Produced trustingPlatform data chain → ∀ (hash : Bytes) (entry : ChainEntry),
    chain.entries.get? hash = some entry → ∀ (blocks : List BlockRow) (rows : List TransactionRow),
    (∀ read, @SQLiteChainStorage.getBlockByHash trustingPlatform
      (SQLiteChainStorage.onTables (data.altered blocks rows)) hash = .ok read →
        CollisionFree fun x => @Block.HashInput trustingPlatform entry.block x ∨
          @Block.HashInput trustingPlatform read x) →
    @TamperEvident trustingPlatform data (data.altered blocks rows) hash entry.block := by
  intro always
  obtain ⟨data, entry, rows, produced, stored, blockEq, padded, found⟩ := exists_padded
  have evident := always data _ produced _ entry stored data.blocks rows
    fun read readOk => blockEq ▸ free_of_readBlock found readOk
  rw [← @getBlockByHash_eq trustingPlatform _ _ (by decide)] at found
  have same := @TamperEvident.byHash_returns trustingPlatform _ _ _ _ evident _ found
  rw [blockEq] at same
  have bodies : paddedTransfers = transfersBlock.transactions := congrArg Block.transactions same
  exact absurd (congrArg List.length bodies) (by decide)

end Tampering

end OurCoin
