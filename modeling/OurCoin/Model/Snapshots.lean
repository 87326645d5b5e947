import OurCoin.Library.Reading
import OurCoin.Model.Storage

/-!
# Loading, statement by statement

`load_chain` outside of any transaction: the connection is in autocommit mode, so each of
its SELECT statements sees the tables that are committed when it runs. The definitions of
`OurCoin.Model.Storage` are those for tables that nobody else changes.
-/

set_option autoImplicit false

namespace OurCoin

open Raising Reading

namespace SQLiteChainStorage

/-- The storage while the given tables are committed. -/
def seeing (storage : SQLiteChainStorage) (committed : Tables) : SQLiteChainStorage :=
  { storage with connection := ⟨committed, none⟩ }

/-- `_validate_sqlite_integrity()`, two statements. -/
def validateSqliteIntegrityReading : Reading Tables Raised Unit := do
  compute fun tables => raiseIf (¬ tables.passesIntegrityCheck)
    (storageIntegrityError "SQLite integrity_check failed")
  compute fun tables => raiseIf (¬ tables.passesForeignKeyCheck)
    (storageIntegrityError "SQLite foreign key check failed")

/-- The rows after the first one. Each round selects the transactions of its row. -/
def replayRestReading [Platform] (storage : SQLiteChainStorage) :
    Chain → List BlockRow → Reading Tables Raised Chain
  | chain, [] => pure chain
  | chain, row :: rest => do
    let grown ← compute fun tables => (storage.seeing tables).replayRow true false chain row
    storage.replayRestReading grown rest

/-- `_replay_blocks(check_derived_records=True)`: one statement for the rows of `blocks`, and
one for the transactions of each row. -/
def replayBlocksReading [Platform] (storage : SQLiteChainStorage) :
    Reading Tables Raised Chain := do
  match ← select Tables.blockRows with
  | [] => lift (.error (storageIntegrityError "database contains no genesis block"))
  | first :: rest => do
    let chain ← lift (Chain.init storage.network)
    let chain ← compute fun tables => (storage.seeing tables).replayRow true true chain first
    storage.replayRestReading chain rest

/-- `_stored_state()`, two statements. -/
def storedStateReading : Reading Tables Raised (List (Text × Account) × Finset Bytes) := do
  let accountRows ← select Tables.accountRows
  let accounts ← lift (accountRows.mapM fun row => do
    let balance ← decodeStoredU64 row.balanceAtoms "account balance"
    let nonce ← decodeStoredU64 row.nonce "account nonce"
    let account ← rethrow (reraiseAs ErrorClass.isValueError .storageIntegrityError
      "stored account data is invalid") (Account.new balance nonce)
    return (row.address, account))
  let confirmedRows ← select Tables.confirmedTransactions
  let confirmed ← lift (confirmedRows.mapM fun row =>
    exactBlob row.txid 32 "confirmed transaction ID")
  return (accounts, confirmed.toFinset)

/-- `_validate_derived_state(chain)`, five statements. -/
def validateDerivedStateReading [Platform] (chain : Chain) : Reading Tables Raised Unit := do
  let metadata ← compute fun tables => onlyMetadataRow tables.chainMetadata
  lift (do
    let tipHash ← exactBlob metadata.canonicalTipHash 32 "canonical tip hash"
    raiseIf (tipHash ≠ chain.activeTipHash)
      (storageIntegrityError "stored canonical tip differs from replay")
    let supply ← decodeStoredU64 metadata.issuedSupplyAtoms "metadata issued supply"
    raiseIf (supply ≠ chain.totalSupplyAtoms)
      (storageIntegrityError "stored issued supply differs from replay"))
  let canonicalRows ← select Tables.canonicalRows
  let expectedChain ← lift chain.activeChain
  lift (raiseIf (canonicalRows.length ≠ expectedChain.length)
    (storageIntegrityError "canonical height index differs from replay"))
  lift (checkCanonical canonicalRows expectedChain)
  let (storedAccounts, storedConfirmedIds) ← storedStateReading
  let expectedSnapshot ← lift (do return (← chain.state).snapshot)
  lift (raiseIf (storedAccounts ≠ expectedSnapshot.accounts ∨
    storedConfirmedIds ≠ expectedSnapshot.confirmedTxids)
    (storageIntegrityError "stored account state differs from replay"))
  let confirmedRows ← select Tables.confirmedTransactions
  lift (do
    let storedConfirmed ← confirmedRows.mapM fun row => do
      return (← exactBlob row.txid 32 "confirmed transaction ID",
        ← exactBlob row.blockHash 32 "confirmed block hash")
    let expectedConfirmed ← expectedChain.mapM fun block => block.transactions.mapM fun tx => do
      return (← tx.txid, ← block.blockHash)
    raiseIf (storedConfirmed.toFinset ≠ expectedConfirmed.flatten.toFinset)
      (storageIntegrityError "stored confirmed transaction index differs from replay"))

/-- `load_chain()`. -/
def loadChainReading [Platform] (storage : SQLiteChainStorage) : Reading Tables Raised Chain := do
  lift storage.ensureOpen
  compute fun tables => (storage.seeing tables).validateIdentity
  validateSqliteIntegrityReading
  let chain ← storage.replayBlocksReading
  validateDerivedStateReading chain
  return chain

end SQLiteChainStorage

end OurCoin
