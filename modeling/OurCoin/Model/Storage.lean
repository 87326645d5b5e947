import OurCoin.Library.Transactions
import OurCoin.Model.Chain
import OurCoin.Model.Mempool

/-!
# Persistence

`storage.py`: the SQLite tables with their constraints, the statements that write a
block and the derived state of the active chain, the transaction that persists one
update, and the replay that restores and checks a chain when a database is loaded.

The tables are lists of rows. A statement that violates a constraint of the schema
raises `sqlite3.IntegrityError`. `ORDER BY` on a BLOB compares bytes, and on an address
compares code points, as its UTF-8 bytes would.
-/

set_option autoImplicit false

namespace OurCoin

open Raising Transactions

def schemaVersion : Int := 1
def cumulativeWorkBytes : Nat := 40

/-- `StorageIntegrityError(message)`. -/
def storageIntegrityError (message : String) : Raised := ⟨.storageIntegrityError, message⟩

/-- `sqlite3.IntegrityError`, for a constraint of the schema. -/
def constraintFailed : Raised := ⟨.sqliteError, "constraint failed"⟩

/-- `sqlite3.OperationalError`, for a statement that could not be run. -/
def operationalError : Raised := ⟨.sqliteError, "statement failed"⟩

/-! ## Values in the database -/

/-- `_encode_work`: cumulative work as a blob of 40 bytes. -/
def encodeWork (value : Int) : Except Raised Bytes := do
  raiseIf (¬ (0 < value ∧ value < 256 ^ cumulativeWorkBytes))
    (storageIntegrityError "cumulative work is outside the storage range")
  return BigEndian.toBytes cumulativeWorkBytes value.toNat

/-- `_decode_u64(value, field_name)`. -/
def decodeStoredU64 (value : Bytes) (fieldName : String) : Except Raised Int := do
  raiseIf (value.length ≠ 8) (storageIntegrityError s!"{fieldName} is not a canonical u64 BLOB")
  rethrow (reraiseAs (· == .encodingError) .storageIntegrityError
    s!"{fieldName} is not a canonical u64 BLOB")
    (Reader.readAll (do let decoded ← readU64; ensureFinished; return decoded) value)

/-- `_decode_work`: the work of a blob of 40 bytes. -/
def decodeWork (value : Bytes) : Except Raised Int := do
  raiseIf (value.length ≠ cumulativeWorkBytes)
    (storageIntegrityError "cumulative work is not a 40-byte BLOB")
  let decoded : Int := BigEndian.ofBytes value
  raiseIf (decoded ≤ 0) (storageIntegrityError "cumulative work must be positive")
  return decoded

/-- Refuse a blob of another length. -/
def exactBlob (value : Bytes) (length : Nat) (fieldName : String) : Except Raised Bytes := do
  raiseIf (value.length ≠ length)
    (storageIntegrityError s!"{fieldName} must be exactly {length} bytes")
  return value

/-! ## Tables -/

/-- A row of `blocks`. -/
structure BlockRow where
  acceptanceOrder : Int
  blockHash : Bytes
  parentHash : Option Bytes
  height : Bytes
  cumulativeWork : Bytes
  issuedSupplyAtoms : Bytes
  headerBytes : Bytes
  rewardBytes : Bytes
  deriving DecidableEq

/-- A row of `block_transactions`. -/
structure TransactionRow where
  blockHash : Bytes
  position : Nat
  txid : Bytes
  transactionBytes : Bytes
  deriving DecidableEq

/-- A row of `canonical_chain`. -/
structure CanonicalRow where
  height : Bytes
  blockHash : Bytes
  deriving DecidableEq

/-- A row of `accounts`. -/
structure AccountRow where
  address : Text
  balanceAtoms : Bytes
  nonce : Bytes
  deriving DecidableEq

/-- A row of `confirmed_transactions`. -/
structure ConfirmedRow where
  txid : Bytes
  blockHash : Bytes
  deriving DecidableEq

/-- A row of `chain_metadata`. -/
structure MetadataRow where
  schemaVersion : Int
  chainId : Text
  genesisHash : Bytes
  canonicalTipHash : Bytes
  issuedSupplyAtoms : Bytes
  deriving DecidableEq

/-- The database. `sequence` is the counter behind `AUTOINCREMENT`. -/
structure Tables where
  sequence : Int
  blocks : List BlockRow
  blockTransactions : List TransactionRow
  canonicalChain : List CanonicalRow
  accounts : List AccountRow
  confirmedTransactions : List ConfirmedRow
  chainMetadata : List MetadataRow
  deriving DecidableEq

namespace Tables

/-- The tables right after `CREATE TABLE`. -/
def empty : Tables := ⟨0, [], [], [], [], [], []⟩

/-- `REFERENCES blocks(block_hash)`. -/
def hasBlock (tables : Tables) (blockHash : Bytes) : Prop :=
  blockHash ∈ tables.blocks.map BlockRow.blockHash

instance (tables : Tables) (blockHash : Bytes) : Decidable (tables.hasBlock blockHash) :=
  inferInstanceAs (Decidable (blockHash ∈ tables.blocks.map BlockRow.blockHash))

/-! ## Statements -/

/-- `INSERT INTO blocks`. The row gets the next acceptance order. -/
def insertBlockRow (row : BlockRow) (tables : Tables) : Except Raised (Unit × Tables) := do
  raiseIf (¬ (row.blockHash.length = 32 ∧ row.height.length = 8 ∧ row.cumulativeWork.length = 40 ∧
    row.issuedSupplyAtoms.length = 8)) constraintFailed
  raiseIf (tables.hasBlock row.blockHash) constraintFailed
  raiseIf (∃ parent ∈ row.parentHash, ¬ tables.hasBlock parent ∧ parent ≠ row.blockHash)
    constraintFailed
  return ((), { tables with
    sequence := tables.sequence + 1
    blocks := tables.blocks ++ [{ row with acceptanceOrder := tables.sequence + 1 }] })

/-- `UPDATE blocks SET cumulative_work = ?, issued_supply_atoms = ? WHERE block_hash = ?`. -/
def updateBlockRow (blockHash cumulativeWork issuedSupplyAtoms : Bytes) (tables : Tables) :
    Except Raised (Unit × Tables) := do
  raiseIf (tables.hasBlock blockHash ∧
    ¬ (cumulativeWork.length = 40 ∧ issuedSupplyAtoms.length = 8)) constraintFailed
  return ((), { tables with
    blocks := tables.blocks.map fun row =>
      if row.blockHash = blockHash then { row with cumulativeWork, issuedSupplyAtoms } else row })

/-- `INSERT INTO block_transactions`. -/
def insertTransactionRow (row : TransactionRow) (tables : Tables) :
    Except Raised (Unit × Tables) := do
  raiseIf (row.txid.length ≠ 32) constraintFailed
  raiseIf ((row.blockHash, row.position) ∈
    tables.blockTransactions.map fun other => (other.blockHash, other.position)) constraintFailed
  raiseIf (¬ tables.hasBlock row.blockHash) constraintFailed
  return ((), { tables with blockTransactions := tables.blockTransactions ++ [row] })

/-- `INSERT INTO canonical_chain`. -/
def insertCanonicalRow (row : CanonicalRow) (tables : Tables) : Except Raised (Unit × Tables) := do
  raiseIf (row.height.length ≠ 8) constraintFailed
  raiseIf (row.height ∈ tables.canonicalChain.map CanonicalRow.height) constraintFailed
  raiseIf (row.blockHash ∈ tables.canonicalChain.map CanonicalRow.blockHash) constraintFailed
  raiseIf (¬ tables.hasBlock row.blockHash) constraintFailed
  return ((), { tables with canonicalChain := tables.canonicalChain ++ [row] })

/-- `INSERT INTO confirmed_transactions`. -/
def insertConfirmedRow (row : ConfirmedRow) (tables : Tables) : Except Raised (Unit × Tables) := do
  raiseIf (row.txid.length ≠ 32) constraintFailed
  raiseIf (row.txid ∈ tables.confirmedTransactions.map ConfirmedRow.txid) constraintFailed
  raiseIf (¬ tables.hasBlock row.blockHash) constraintFailed
  return ((), { tables with confirmedTransactions := tables.confirmedTransactions ++ [row] })

/-- `INSERT INTO accounts`. -/
def insertAccountRow (row : AccountRow) (tables : Tables) : Except Raised (Unit × Tables) := do
  raiseIf (¬ (row.balanceAtoms.length = 8 ∧ row.nonce.length = 8)) constraintFailed
  raiseIf (row.address ∈ tables.accounts.map AccountRow.address) constraintFailed
  return ((), { tables with accounts := tables.accounts ++ [row] })

/-- `INSERT INTO chain_metadata`. Its key is the constant 1. -/
def insertMetadataRow (row : MetadataRow) (tables : Tables) : Except Raised (Unit × Tables) := do
  raiseIf (¬ (row.genesisHash.length = 32 ∧ row.issuedSupplyAtoms.length = 8)) constraintFailed
  raiseIf (tables.chainMetadata ≠ []) constraintFailed
  raiseIf (¬ tables.hasBlock row.canonicalTipHash) constraintFailed
  return ((), { tables with chainMetadata := [row] })

/-- `UPDATE chain_metadata SET canonical_tip_hash = ?, issued_supply_atoms = ?`. -/
def updateMetadata (canonicalTipHash issuedSupplyAtoms : Bytes) (tables : Tables) :
    Except Raised (Unit × Tables) := do
  raiseIf (tables.chainMetadata ≠ [] ∧ issuedSupplyAtoms.length ≠ 8) constraintFailed
  raiseIf (tables.chainMetadata ≠ [] ∧ ¬ tables.hasBlock canonicalTipHash) constraintFailed
  return ((), { tables with
    chainMetadata := tables.chainMetadata.map fun row =>
      { row with canonicalTipHash, issuedSupplyAtoms } })

/-- `DELETE FROM canonical_chain`. -/
def deleteCanonicalChain (tables : Tables) : Except Raised (Unit × Tables) :=
  .ok ((), { tables with canonicalChain := [] })

/-- `DELETE FROM accounts`. -/
def deleteAccounts (tables : Tables) : Except Raised (Unit × Tables) :=
  .ok ((), { tables with accounts := [] })

/-- `DELETE FROM confirmed_transactions`. -/
def deleteConfirmedTransactions (tables : Tables) : Except Raised (Unit × Tables) :=
  .ok ((), { tables with confirmedTransactions := [] })

/-- `SELECT * FROM blocks WHERE block_hash = ?`. -/
def blockRow? (tables : Tables) (blockHash : Bytes) : Option BlockRow :=
  tables.blocks.find? fun row => row.blockHash = blockHash

/-- `SELECT … FROM block_transactions WHERE block_hash = ? ORDER BY position`. -/
def transactionRows (tables : Tables) (blockHash : Bytes) : List TransactionRow :=
  (tables.blockTransactions.filter fun row => row.blockHash = blockHash).insertionSort
    fun first second => first.position ≤ second.position

/-- `SELECT * FROM blocks ORDER BY acceptance_order`. -/
def blockRows (tables : Tables) : List BlockRow :=
  tables.blocks.insertionSort fun first second => first.acceptanceOrder ≤ second.acceptanceOrder

/-- `SELECT height, block_hash FROM canonical_chain ORDER BY height`. -/
def canonicalRows (tables : Tables) : List CanonicalRow :=
  tables.canonicalChain.insertionSort fun first second =>
    bytesKey first.height ≤ bytesKey second.height

/-- `SELECT address, balance_atoms, nonce FROM accounts ORDER BY address`. -/
def accountRows (tables : Tables) : List AccountRow :=
  tables.accounts.insertionSort fun first second => first.address ≤ second.address

/-- `PRAGMA integrity_check`: the keys are unique and every row passes its checks. -/
def passesIntegrityCheck (tables : Tables) : Prop :=
  (tables.blocks.map BlockRow.acceptanceOrder).Nodup ∧
  (tables.blocks.map BlockRow.blockHash).Nodup ∧
  (∀ row ∈ tables.blocks, row.blockHash.length = 32 ∧ row.height.length = 8 ∧
    row.cumulativeWork.length = 40 ∧ row.issuedSupplyAtoms.length = 8) ∧
  (tables.blockTransactions.map fun row => (row.blockHash, row.position)).Nodup ∧
  (∀ row ∈ tables.blockTransactions, row.txid.length = 32) ∧
  (tables.canonicalChain.map CanonicalRow.height).Nodup ∧
  (tables.canonicalChain.map CanonicalRow.blockHash).Nodup ∧
  (∀ row ∈ tables.canonicalChain, row.height.length = 8) ∧
  (tables.accounts.map AccountRow.address).Nodup ∧
  (∀ row ∈ tables.accounts, row.balanceAtoms.length = 8 ∧ row.nonce.length = 8) ∧
  (tables.confirmedTransactions.map ConfirmedRow.txid).Nodup ∧
  (∀ row ∈ tables.confirmedTransactions, row.txid.length = 32) ∧
  tables.chainMetadata.length ≤ 1 ∧
  (∀ row ∈ tables.chainMetadata, row.genesisHash.length = 32 ∧ row.issuedSupplyAtoms.length = 8)

instance (tables : Tables) : Decidable tables.passesIntegrityCheck := by
  unfold passesIntegrityCheck
  infer_instance

/-- `PRAGMA foreign_key_check`: every reference to a block is to a stored one. -/
def passesForeignKeyCheck (tables : Tables) : Prop :=
  (∀ row ∈ tables.blocks, ∀ parent ∈ row.parentHash, tables.hasBlock parent) ∧
  (∀ row ∈ tables.blockTransactions, tables.hasBlock row.blockHash) ∧
  (∀ row ∈ tables.canonicalChain, tables.hasBlock row.blockHash) ∧
  (∀ row ∈ tables.confirmedTransactions, tables.hasBlock row.blockHash) ∧
  (∀ row ∈ tables.chainMetadata, tables.hasBlock row.canonicalTipHash)

instance (tables : Tables) : Decidable tables.passesForeignKeyCheck := by
  unfold passesForeignKeyCheck
  infer_instance

end Tables

/-- Statements of the storage. -/
abbrev Statement (α : Type) : Type := Sql Tables Raised α

/-- One statement that changes the tables. -/
def statement (change : Tables → Except Raised (Unit × Tables)) : Statement Unit :=
  execute operationalError change

/-! ## Writing -/

/-- The values of a row of `blocks`. -/
def blockValues [Platform] (blockHash : Bytes) (block : Block) (record : BlockRecord) :
    Except Raised BlockRow := do
  return {
    acceptanceOrder := 0
    blockHash
    parentHash := record.parentHash
    height := ← encodeU64 record.height
    cumulativeWork := ← encodeWork record.cumulativeWork
    issuedSupplyAtoms := ← encodeU64 record.totalSupplyAtoms
    headerBytes := ← block.header.toBytes
    rewardBytes := ← block.rewardTransaction.toBytes }

/-- The values of a row of `block_transactions`. -/
def transactionValues [Platform] (blockHash : Bytes) (position : Nat) (tx : Transaction) :
    Except Raised TransactionRow := do
  return {
    blockHash
    position
    txid := ← tx.txid
    transactionBytes := ← tx.toBytes }

/-- `for position, transaction in enumerate(block.transactions)`. -/
def insertTransactions [Platform] (blockHash : Bytes) : Nat → List Transaction → Statement Unit
  | _, [] => pure ()
  | position, tx :: rest => do
    let row ← lift (transactionValues blockHash position tx)
    statement (Tables.insertTransactionRow row)
    insertTransactions blockHash (position + 1) rest

/-- Write the row of a block and the rows of its transactions. -/
def insertBlock [Platform] (chain : Chain) (blockHash : Bytes) : Statement Unit := do
  let block ← lift (chain.getBlock blockHash)
  let record ← lift (chain.getRecord blockHash)
  let row ← lift (blockValues blockHash block record)
  statement (Tables.insertBlockRow row)
  insertTransactions blockHash 0 block.transactions

/-- The values of a row of `canonical_chain`. -/
def canonicalValues [Platform] (block : Block) : Except Raised CanonicalRow := do
  return { height := ← encodeU64 block.header.height, blockHash := ← block.blockHash }

/-- The values of a row of `confirmed_transactions`. -/
def confirmedValues [Platform] (block : Block) (tx : Transaction) : Except Raised ConfirmedRow := do
  return { txid := ← tx.txid, blockHash := ← block.blockHash }

/-- Write the rows of `confirmed_transactions` for the transfers of a block. -/
def insertConfirmed [Platform] (block : Block) : List Transaction → Statement Unit
  | [] => pure ()
  | tx :: rest => do
    let row ← lift (confirmedValues block tx)
    statement (Tables.insertConfirmedRow row)
    insertConfirmed block rest

/-- `for block in active_chain`. -/
def insertCanonical [Platform] : List Block → Statement Unit
  | [] => pure ()
  | block :: rest => do
    let row ← lift (canonicalValues block)
    statement (Tables.insertCanonicalRow row)
    insertConfirmed block block.transactions
    insertCanonical rest

/-- The values of a row of `accounts`. -/
def accountValues (item : Text × Account) : Except Raised AccountRow := do
  return {
    address := item.1
    balanceAtoms := ← encodeU64 item.2.balanceAtoms
    nonce := ← encodeU64 item.2.nonce }

/-- `for address, account in chain.state.snapshot().accounts`. -/
def insertAccounts : List (Text × Account) → Statement Unit
  | [] => pure ()
  | item :: rest => do
    let row ← lift (accountValues item)
    statement (Tables.insertAccountRow row)
    insertAccounts rest

/-- Write the canonical index, the accounts and the confirmed transactions anew. -/
def replaceDerivedState [Platform] (chain : Chain) : Statement Unit := do
  statement Tables.deleteCanonicalChain
  statement Tables.deleteAccounts
  statement Tables.deleteConfirmedTransactions
  let activeChain ← lift chain.activeChain
  insertCanonical activeChain
  let state ← lift chain.state
  insertAccounts state.snapshot.accounts
  let supply ← lift (encodeU64 chain.totalSupplyAtoms)
  statement (Tables.updateMetadata chain.activeTipHash supply)

/-! ## Reading -/

/-- The rows of `chain_metadata`, which must be one. -/
def onlyMetadataRow (rows : List MetadataRow) : Except Raised MetadataRow :=
  match rows with
  | [row] => .ok row
  | _ => .error (storageIntegrityError "database must contain exactly one metadata row")

/-- The decoding errors that `_decode_block_row` reports as a broken block. -/
def brokenBlock : Raised → Raised :=
  reraiseAs (fun cls => cls == .blockEncodingError || cls == .transactionError)
    .storageIntegrityError "stored block contains invalid canonical bytes"

/-- The header and the reward of a stored block. -/
def decodeHeads [Platform] (row : BlockRow) : Except Raised (BlockHeader × RewardTransaction) := do
  let _ ← exactBlob row.blockHash 32 "block hash"
  rethrow brokenBlock (do
    let header ← BlockHeader.fromBytes row.headerBytes
    let reward ← RewardTransaction.fromBytes row.rewardBytes
    return (header, reward))

/-- The transactions of a stored block. -/
def decodeTransactionRows [Platform] : Nat → List TransactionRow → Except Raised (List Transaction)
  | _, [] => .ok []
  | expectedPosition, row :: rest => do
    raiseIf (row.position ≠ expectedPosition)
      (storageIntegrityError "block transaction positions are not contiguous")
    let tx ← Transaction.fromBytes row.transactionBytes
    let txid ← exactBlob row.txid 32 "transaction ID"
    raiseIf ((← tx.txid) ≠ txid)
      (storageIntegrityError "stored transaction ID does not match its bytes")
    return tx :: (← decodeTransactionRows (expectedPosition + 1) rest)

/-- The block of a row, from its heads and its transaction rows. -/
def decodeBody [Platform] (row : BlockRow) (heads : BlockHeader × RewardTransaction)
    (transactionRows : List TransactionRow) : Except Raised Block := do
  let transactions ← rethrow brokenBlock (decodeTransactionRows 0 transactionRows)
  let block : Block := ⟨heads.1, heads.2, transactions⟩
  raiseIf ((← block.blockHash) ≠ row.blockHash)
    (storageIntegrityError "stored block hash does not match its header")
  let bodyRoot ← rethrow (reraiseAs (· == .blockEncodingError) .storageIntegrityError
    "stored block body is not canonically valid") (transactionsRoot heads.2 block.transactions)
  raiseIf (bodyRoot ≠ heads.1.transactionsRoot)
    (storageIntegrityError "stored block body does not match its transaction root")
  return block

/-- `_decode_block_row(row)`. -/
def decodeBlockRow [Platform] (tables : Tables) (row : BlockRow) : Except Raised Block := do
  let heads ← decodeHeads row
  decodeBody row heads (tables.transactionRows row.blockHash)

/-- The parent hash of a row, which only the genesis block lacks. -/
def parentFromRow (parentHash : Option Bytes) : Except Raised (Option Bytes) :=
  match parentHash with
  | none => .ok none
  | some parent => some <$> exactBlob parent 32 "parent block hash"

/-- The record that a row of `blocks` spells. -/
def recordFromRow (row : BlockRow) : Except Raised BlockRecord := do
  let parentHash ← parentFromRow row.parentHash
  return {
    blockHash := ← exactBlob row.blockHash 32 "block hash"
    parentHash
    height := ← decodeStoredU64 row.height "block height"
    cumulativeWork := ← decodeWork row.cumulativeWork
    totalSupplyAtoms := ← decodeStoredU64 row.issuedSupplyAtoms "block issued supply" }

/-! ## Persisting one update -/

/-- An open database for one identity-bound chain. -/
structure SQLiteChainStorage where
  connection : Connection Tables
  network : NetworkConfig
  genesisHash : Bytes
  closed : Bool

/-- `StorageInfo`, without the path of the database. -/
structure StorageInfo where
  schemaVersion : Int
  chainId : Text
  genesisHash : Bytes
  height : Int
  tipHash : Bytes
  cumulativeWork : Int
  issuedSupplyAtoms : Int
  blockCount : Nat
  accountCount : Nat
  deriving DecidableEq

/-- The values of a `StorageValidationReport` and of a `StorageReindexReport`. -/
structure StorageReport where
  blockCount : Nat
  accountCount : Nat
  height : Int
  tipHash : Bytes
  deriving DecidableEq

namespace SQLiteChainStorage

/-- Refuse to work on a closed storage. -/
def ensureOpen (storage : SQLiteChainStorage) : Except Raised Unit :=
  raiseIf (storage.closed = true) ⟨.storageClosedError, "blockchain storage is closed"⟩

/-- `_metadata_row()`, inside a transaction. -/
def metadataRow (storage : SQLiteChainStorage) : Statement MetadataRow := do
  lift storage.ensureOpen
  let rows ← query operationalError Tables.chainMetadata
  lift (onlyMetadataRow rows)

/-- Refuse a stored block that is not the block of the chain. -/
def assertStoredBlockMatches [Platform] (chain : Chain) (blockHash : Bytes) : Statement Unit := do
  let exactHash ← lift (exactBlob blockHash 32 "requested block hash")
  let found ← query operationalError fun tables => tables.blockRow? exactHash
  let row ← lift (match found with
    | some row => .ok row
    | none => .error ⟨.blockNotFoundError, "block is not stored"⟩)
  let heads ← lift (decodeHeads row)
  let transactionRows ← query operationalError fun tables => tables.transactionRows row.blockHash
  lift (do
    raiseIf ((← decodeBody row heads transactionRows) ≠ (← chain.getBlock blockHash))
      (storageIntegrityError "duplicate block bytes do not match stored data")
    raiseIf ((← recordFromRow row) ≠ (← chain.getRecord blockHash))
      (storageIntegrityError "duplicate block metadata does not match stored data"))

/-- The tip that the database must have before an update. -/
def expectedPreviousTip (update : ChainUpdate) : Except Raised Bytes :=
  if update.becameActive = false then .ok update.activeTipHash
  else
    match update.disconnected, update.commonAncestorHash with
    | old :: _, _ => .ok old
    | [], some common => .ok common
    | [], none => .error
        (storageIntegrityError "active extension does not identify its previous tip")

/-- The statements of `persist_chain_update` after `BEGIN IMMEDIATE`. -/
def persistBody [Platform] (storage : SQLiteChainStorage) (chain : Chain) (update : ChainUpdate) :
    Statement Bool := do
  let metadata ← storage.metadataRow
  let storedTip ← lift (exactBlob metadata.canonicalTipHash 32 "stored canonical tip hash")
  let existing ← query operationalError fun tables => tables.blockRow? update.addedBlockHash
  if existing.isSome = true then do
    assertStoredBlockMatches chain update.addedBlockHash
    commit operationalError
    return false
  else do
    let expected ← lift (expectedPreviousTip update)
    lift (raiseIf (storedTip ≠ expected)
      (storageIntegrityError "database canonical tip changed before persistence"))
    insertBlock chain update.addedBlockHash
    if update.becameActive = true then replaceDerivedState chain else pure ()
    commit operationalError
    return true

/-- Storage errors pass, SQLite errors become storage errors, and others pass. -/
def persistError (e : Raised) : Raised :=
  if e.cls = .sqliteError then
    ⟨.storageError, "SQLite could not atomically persist the chain update"⟩
  else e

/-- Atomically persist one already validated chain update. The faults are those that the
statements of this call meet. -/
def persistChainUpdate [Platform] (storage : SQLiteChainStorage) (chain : Chain)
    (update : ChainUpdate) (faults : List Fault) : Outcome Raised SQLiteChainStorage Bool :=
  let checks : Except Raised Unit := do
    storage.ensureOpen
    raiseIf (chain.network ≠ storage.network)
      ⟨.networkMismatchError, "validated chain belongs to another network"⟩
    raiseIf (¬ chain.contains update.addedBlockHash = true)
      (storageIntegrityError "chain update does not exist in the supplied chain")
    raiseIf (chain.activeTipHash ≠ update.activeTipHash)
      (storageIntegrityError "chain update active tip does not match the supplied chain")
  match checks with
  | .error e => (.error e, storage)
  | .ok () =>
    let body : Statement Bool := do
      begin operationalError
      storage.persistBody chain update
    let (result, session) := rollingBack persistError body ⟨storage.connection, faults⟩
    (result, { storage with connection := session.connection })

/-! ## Creating and loading a database -/

/-- The statements of `_initialize_schema` after the tables were created. -/
def initializeBody [Platform] (network : NetworkConfig) (chain : Chain) : Statement Unit := do
  insertBlock chain chain.activeTipHash
  let supply ← lift (encodeU64 chain.totalSupplyAtoms)
  statement (Tables.insertMetadataRow {
    schemaVersion := schemaVersion
    chainId := network.chainId
    genesisHash := chain.activeTipHash
    canonicalTipHash := chain.activeTipHash
    issuedSupplyAtoms := supply })
  replaceDerivedState chain
  commit operationalError
  return ()

/-- `SQLiteChainStorage.open` on a path where there is no database yet. -/
def openFresh [Platform] (network : NetworkConfig) : Except Raised SQLiteChainStorage := do
  let chain ← Chain.init network
  let body : Statement Unit := do
    begin operationalError
    initializeBody network chain
  let (result, session) := rollingBack id body ⟨⟨Tables.empty, none⟩, []⟩
  result
  return {
    connection := session.connection
    network
    genesisHash := chain.activeTipHash
    closed := false }

/-- The tables as a statement outside any transaction reads them. -/
def tables (storage : SQLiteChainStorage) : Tables :=
  storage.connection.working.getD storage.connection.committed

/-- Refuse the database of another network or schema. -/
def validateIdentity (storage : SQLiteChainStorage) : Except Raised Unit := do
  storage.ensureOpen
  let row ← onlyMetadataRow storage.tables.chainMetadata
  raiseIf (row.schemaVersion ≠ schemaVersion)
    ⟨.unsupportedSchemaVersionError, "metadata schema version is unsupported"⟩
  raiseIf (row.chainId ≠ storage.network.chainId)
    ⟨.networkMismatchError, "database chain_id does not match the selected network"⟩
  let storedGenesis ← exactBlob row.genesisHash 32 "metadata genesis hash"
  raiseIf (storedGenesis ≠ storage.genesisHash)
    ⟨.networkMismatchError, "database genesis hash does not match the selected network"⟩

/-- The checks that SQLite makes of the file. -/
def validateSqliteIntegrity (storage : SQLiteChainStorage) : Except Raised Unit := do
  raiseIf (¬ storage.tables.passesIntegrityCheck)
    (storageIntegrityError "SQLite integrity_check failed")
  raiseIf (¬ storage.tables.passesForeignKeyCheck)
    (storageIntegrityError "SQLite foreign key check failed")

/-- The chain after a decoded block: the first one must be the genesis block, the others
are added. -/
def replayBlock [Platform] (storage : SQLiteChainStorage) (isFirst : Bool) (chain : Chain)
    (block : Block) : Except Raised Chain :=
  if isFirst = true then do
    let blockHash ← block.blockHash
    raiseIf (block ≠ chain.tip ∨ blockHash ≠ storage.genesisHash)
      (storageIntegrityError "stored genesis does not match the selected network")
    return chain
  else
    match chain.addBlock block with
    | (.ok _, grown) => .ok grown
    | (.error e, _) => .error (reraiseAs (· == .chainError) .storageIntegrityError
        "stored block replay failed validation" e)

/-- `if check_derived_records`: the record of a row against the replayed one. -/
def checkRecord [Platform] (checkDerivedRecords : Bool) (chain : Chain) (row : BlockRow)
    (block : Block) : Except Raised Unit :=
  if checkDerivedRecords = true then do
    raiseIf ((← recordFromRow row) ≠ (← chain.getRecord (← block.blockHash)))
      (storageIntegrityError "stored block record differs from replay")
  else .ok ()

/-- One round of the replay: decode the block of a row, check it against the row and add
it. -/
def replayRow [Platform] (storage : SQLiteChainStorage) (checkDerivedRecords : Bool)
    (isFirst : Bool) (chain : Chain) (row : BlockRow) : Except Raised Chain := do
  let block ← decodeBlockRow storage.tables row
  let expectedParent := if isFirst = true then none else some block.header.previousBlockHash
  raiseIf (row.parentHash ≠ expectedParent)
    (storageIntegrityError "stored parent hash does not match the block header")
  let storedHeight ← decodeStoredU64 row.height "block height"
  raiseIf (storedHeight ≠ block.header.height)
    (storageIntegrityError "stored height does not match the block header")
  let chain ← storage.replayBlock isFirst chain block
  checkRecord checkDerivedRecords chain row block
  return chain

/-- The replay of rows: the first one is the genesis block, the others are added. -/
def replayRows [Platform] (storage : SQLiteChainStorage) (checkDerivedRecords : Bool) :
    List BlockRow → Except Raised Chain
  | [] => .error (storageIntegrityError "database contains no genesis block")
  | first :: rest => do
    let chain ← Chain.init storage.network
    let chain ← storage.replayRow checkDerivedRecords true chain first
    rest.foldlM (storage.replayRow checkDerivedRecords false) chain

/-- `_replay_blocks`. -/
def replayBlocks [Platform] (storage : SQLiteChainStorage) (checkDerivedRecords : Bool) :
    Except Raised Chain :=
  storage.replayRows checkDerivedRecords storage.tables.blockRows

/-- `_stored_state`: the stored accounts by address and the confirmed IDs. -/
def storedState (storage : SQLiteChainStorage) :
    Except Raised (List (Text × Account) × Finset Bytes) := do
  let accounts ← storage.tables.accountRows.mapM fun row => do
    let balance ← decodeStoredU64 row.balanceAtoms "account balance"
    let nonce ← decodeStoredU64 row.nonce "account nonce"
    let account ← rethrow (reraiseAs ErrorClass.isValueError .storageIntegrityError
      "stored account data is invalid") (Account.new balance nonce)
    return (row.address, account)
  let confirmed ← storage.tables.confirmedTransactions.mapM fun row =>
    exactBlob row.txid 32 "confirmed transaction ID"
  return (accounts, confirmed.toFinset)

/-- The canonical index against the active chain, height by height. -/
def checkCanonical [Platform] : List CanonicalRow → List Block → Except Raised Unit
  | row :: rows, block :: blocks => do
    raiseIf ((← decodeStoredU64 row.height "canonical height") ≠ block.header.height ∨
      (← exactBlob row.blockHash 32 "canonical block hash") ≠ (← block.blockHash))
      (storageIntegrityError "canonical height index differs from replay")
    checkCanonical rows blocks
  | _, _ => return ()

/-- Compare the derived tables with the chain that was replayed. -/
def validateDerivedState [Platform] (storage : SQLiteChainStorage) (chain : Chain) :
    Except Raised Unit := do
  let metadata ← onlyMetadataRow storage.tables.chainMetadata
  let tipHash ← exactBlob metadata.canonicalTipHash 32 "canonical tip hash"
  raiseIf (tipHash ≠ chain.activeTipHash)
    (storageIntegrityError "stored canonical tip differs from replay")
  let supply ← decodeStoredU64 metadata.issuedSupplyAtoms "metadata issued supply"
  raiseIf (supply ≠ chain.totalSupplyAtoms)
    (storageIntegrityError "stored issued supply differs from replay")
  let expectedChain ← chain.activeChain
  raiseIf (storage.tables.canonicalRows.length ≠ expectedChain.length)
    (storageIntegrityError "canonical height index differs from replay")
  checkCanonical storage.tables.canonicalRows expectedChain
  let (storedAccounts, storedConfirmedIds) ← storage.storedState
  let expectedSnapshot := (← chain.state).snapshot
  raiseIf (storedAccounts ≠ expectedSnapshot.accounts ∨
    storedConfirmedIds ≠ expectedSnapshot.confirmedTxids)
    (storageIntegrityError "stored account state differs from replay")
  let storedConfirmed ← storage.tables.confirmedTransactions.mapM fun row => do
    return (← exactBlob row.txid 32 "confirmed transaction ID",
      ← exactBlob row.blockHash 32 "confirmed block hash")
  let expectedConfirmed ← expectedChain.mapM fun block => block.transactions.mapM fun tx => do
    return (← tx.txid, ← block.blockHash)
  raiseIf (storedConfirmed.toFinset ≠ expectedConfirmed.flatten.toFinset)
    (storageIntegrityError "stored confirmed transaction index differs from replay")

/-- Restore the chain from the stored blocks and check everything derived from them. -/
def loadChain [Platform] (storage : SQLiteChainStorage) : Except Raised Chain := do
  storage.ensureOpen
  storage.validateIdentity
  storage.validateSqliteIntegrity
  let chain ← storage.replayBlocks true
  storage.validateDerivedState chain
  return chain

/-- `_block_row`. -/
def blockRow (storage : SQLiteChainStorage) (blockHash : Bytes) : Except Raised BlockRow := do
  let exactHash ← exactBlob blockHash 32 "requested block hash"
  match storage.tables.blockRow? exactHash with
  | none => .error ⟨.blockNotFoundError, "block is not stored"⟩
  | some row => .ok row

/-- A block of the database by its hash. -/
def getBlockByHash [Platform] (storage : SQLiteChainStorage) (blockHash : Bytes) :
    Except Raised Block := do
  storage.ensureOpen
  decodeBlockRow storage.tables (← storage.blockRow blockHash)

/-- A block of the active chain by its height. -/
def getCanonicalBlockByHeight [Platform] (storage : SQLiteChainStorage) (height : Int) :
    Except Raised Block := do
  storage.ensureOpen
  raiseIf (¬ (0 ≤ height ∧ height ≤ u64Max))
    ⟨.storageError, "block height must be an unsigned 64-bit integer"⟩
  let encoded ← encodeU64 height
  let joined := do
    let canonical ← storage.tables.canonicalChain.find? fun row => row.height = encoded
    storage.tables.blockRow? canonical.blockHash
  match joined with
  | none => .error ⟨.blockNotFoundError, "canonical block height is not stored"⟩
  | some row => decodeBlockRow storage.tables row

/-! ## Reports and repairs -/

/-- `get_tip_record()`. -/
def getTipRecord (storage : SQLiteChainStorage) : Except Raised BlockRecord := do
  storage.ensureOpen
  let row ← onlyMetadataRow storage.tables.chainMetadata
  let tipHash ← exactBlob row.canonicalTipHash 32 "canonical tip hash"
  recordFromRow (← storage.blockRow tipHash)

/-- `info()`, without the path of the database. -/
def info (storage : SQLiteChainStorage) : Except Raised StorageInfo := do
  storage.ensureOpen
  let metadata ← onlyMetadataRow storage.tables.chainMetadata
  let record ← storage.getTipRecord
  return {
    schemaVersion := OurCoin.schemaVersion
    chainId := storage.network.chainId
    genesisHash := storage.genesisHash
    height := record.height
    tipHash := record.blockHash
    cumulativeWork := record.cumulativeWork
    issuedSupplyAtoms := ← decodeStoredU64 metadata.issuedSupplyAtoms "metadata issued supply"
    blockCount := storage.tables.blocks.length
    accountCount := storage.tables.accounts.length }

/-- `validate()`. The report is `valid` whenever there is one. -/
def validate [Platform] (storage : SQLiteChainStorage) : Except Raised StorageReport := do
  let chain ← storage.loadChain
  let info ← storage.info
  return {
    blockCount := info.blockCount
    accountCount := info.accountCount
    height := chain.height
    tipHash := chain.activeTipHash }

/-- `for row in block_rows`: write the replayed work and supply of a block into its row. -/
def refreshBlocks [Platform] (chain : Chain) : List BlockRow → Statement Unit
  | [] => pure ()
  | row :: rest => do
    let blockHash ← lift (exactBlob row.blockHash 32 "block hash")
    let record ← lift (chain.getRecord blockHash)
    let work ← lift (encodeWork record.cumulativeWork)
    let supply ← lift (encodeU64 record.totalSupplyAtoms)
    statement (Tables.updateBlockRow blockHash work supply)
    refreshBlocks chain rest

/-- The statements of `reindex` after `BEGIN IMMEDIATE`. -/
def reindexBody [Platform] (chain : Chain) : Statement Unit := do
  let rows ← query operationalError Tables.blocks
  refreshBlocks chain rows
  replaceDerivedState chain
  commit operationalError
  return ()

/-- SQLite errors become storage errors, and others pass. -/
def reindexError (e : Raised) : Raised :=
  if e.cls = .sqliteError then
    ⟨.storageError, "SQLite could not atomically rebuild chain indexes"⟩
  else e

/-- Rebuild what is derived from the stored blocks, and validate the result. The faults are
those that the statements of the transaction meet. -/
def reindex [Platform] (storage : SQLiteChainStorage) (faults : List Fault) :
    Outcome Raised SQLiteChainStorage StorageReport :=
  let checks : Except Raised Chain := do
    storage.ensureOpen
    raiseIf (¬ storage.tables.passesIntegrityCheck)
      (storageIntegrityError "SQLite integrity_check failed")
    storage.replayBlocks false
  match checks with
  | .error e => (.error e, storage)
  | .ok chain =>
    let body : Statement Unit := do
      begin operationalError
      reindexBody chain
    let (result, session) := rollingBack reindexError body ⟨storage.connection, faults⟩
    let after : SQLiteChainStorage := { storage with connection := session.connection }
    match result with
    | .error e => (.error e, after)
    | .ok () => (after.validate, after)

/-- `SQLiteChainStorage.open` on a path with a database, whose committed tables are given.
The schema version and the table names are those that `openFresh` wrote. -/
def openExisting [Platform] (network : NetworkConfig) (committed : Tables) :
    Except Raised SQLiteChainStorage := do
  let chain ← Chain.init network
  let storage : SQLiteChainStorage := {
    connection := ⟨committed, none⟩
    network
    genesisHash := chain.activeTipHash
    closed := false }
  storage.validateIdentity
  return storage

/-- `close()`. An open transaction is rolled back with the connection. -/
def close (storage : SQLiteChainStorage) : SQLiteChainStorage :=
  if storage.closed = true then storage
  else { storage with connection := ⟨storage.connection.committed, none⟩, closed := true }

end SQLiteChainStorage

end OurCoin
