import OurCoin.Library.Faulting
import OurCoin.Model.Storage

/-!
# Opening a database

`SQLiteChainStorage.open` of `storage.py` on one path, by any number of processes at once: what
each of them reads of the file between the writes of the others, and the transaction of
`_initialize_schema` that makes the tables and stores the genesis block.

SQLite lets one transaction write at a time, so that `BEGIN IMMEDIATE` to `COMMIT` is one step.
-/

set_option autoImplicit false

namespace OurCoin

open Raising Transactions

/-! ## The file -/

/-- `PRAGMA user_version`, the names of the tables without those of SQLite, and the rows. A table
that is not there has no rows. -/
structure DatabaseFile where
  userVersion : Int
  tableNames : List Text
  tables : Tables

namespace DatabaseFile

/-- The file that SQLite makes. -/
def blank : DatabaseFile := ⟨0, [], .empty⟩

/-- `CREATE TABLE`. -/
def createTable (name : String) (file : DatabaseFile) : Except Raised (Unit × DatabaseFile) := do
  raiseIf (text name ∈ file.tableNames) operationalError
  return ((), { file with tableNames := file.tableNames ++ [text name] })

/-- `PRAGMA user_version = 1`. -/
def setUserVersion (file : DatabaseFile) : Except Raised (Unit × DatabaseFile) :=
  return ((), { file with userVersion := schemaVersion })

end DatabaseFile

/-- `_required_tables()`, in order. -/
def requiredTables : List String :=
  ["accounts", "block_transactions", "blocks", "canonical_chain", "chain_metadata",
    "confirmed_transactions"]

/-- The tables of the script, in the order in which it makes them. -/
def createdTables : List String :=
  ["blocks", "block_transactions", "canonical_chain", "accounts", "confirmed_transactions",
    "chain_metadata"]

/-! ## `_initialize_schema` -/

/-- The statements that create the tables, one after another. -/
def createTables : List String → Sql DatabaseFile Raised Unit
  | [] => pure ()
  | name :: rest => do
    execute operationalError (DatabaseFile.createTable name)
    createTables rest

variable [Platform]

/-- The rows for the genesis block. -/
def insertGenesis (network : NetworkConfig) (chain : Chain) : Statement Unit := do
  insertBlock chain chain.activeTipHash
  let supply ← lift (encodeU64 chain.totalSupplyAtoms)
  statement (Tables.insertMetadataRow {
    schemaVersion := schemaVersion
    chainId := network.chainId
    genesisHash := chain.activeTipHash
    canonicalTipHash := chain.activeTipHash
    issuedSupplyAtoms := supply })
  replaceDerivedState chain

/-- The statements after `BEGIN IMMEDIATE`. -/
def schemaBody (network : NetworkConfig) (chain : Chain) : Sql DatabaseFile Raised Unit := do
  createTables createdTables
  focus DatabaseFile.tables (fun tables file => { file with tables }) (insertGenesis network chain)
  execute operationalError DatabaseFile.setUserVersion
  commit operationalError
  return ()

/-- The whole transaction, with the faults that its statements meet. -/
def initializeSchema (network : NetworkConfig) (faults : List Fault) (file : DatabaseFile) :
    Except Raised Unit × DatabaseFile :=
  match Chain.init network with
  | .error e => (.error e, file)
  | .ok chain =>
    let body : Sql DatabaseFile Raised Unit := do
      begin operationalError
      schemaBody network chain
    let (result, session) := rollingBack id body ⟨⟨file, none⟩, faults⟩
    (result, session.connection.committed)

/-! ## `open` -/

/-- SQLite errors become storage errors, and others pass. -/
def openError (e : Raised) : Raised :=
  if e.cls = .sqliteError then
    ⟨.storageError, "SQLite blockchain database could not be opened"⟩
  else e

/-- What `_configure_connection` raises for a connection that is not as it should be. -/
def configureErrors : List Raised :=
  [openError operationalError,
    ⟨.storageError, "SQLite foreign key enforcement could not be enabled"⟩,
    ⟨.storageError, "SQLite WAL journal mode could not be enabled"⟩]

/-- Why a database was not opened. -/
inductive OpenFailure where
  /-- `StorageNotFoundError("blockchain database does not exist")`. -/
  | notFound
  /-- The directory could not be made. -/
  | osError
  | raised (e : Raised)

/-- Where a call of `open` stands. -/
inductive OpenStage where
  /-- Before `path.exists()`. -/
  | checking
  /-- Before the directory is made. -/
  | preparing (existed : Bool)
  /-- Before `sqlite3.connect` and the settings of the connection. -/
  | connecting (existed : Bool)
  /-- Before `PRAGMA user_version`. -/
  | versioning (existed : Bool)
  /-- Before the names of the tables are read. -/
  | listing (existed : Bool) (userVersion : Int)
  /-- Before `BEGIN IMMEDIATE`. -/
  | initializing
  /-- Before the metadata is read. -/
  | identifying
  | opened
  | failed (failure : OpenFailure)

namespace OpenStage

/-- `_open_or_initialize` after both reads. -/
def afterListing (existed create : Bool) (userVersion : Int) (tableNames : List Text) : OpenStage :=
  let missing := requiredTables.filter fun name => decide (text name ∉ tableNames)
  if userVersion = 0 ∧ tableNames = [] then
    if existed = true ∧ create = false then
      .failed (.raised (storageIntegrityError "existing database has no OurCoin schema"))
    else .initializing
  else if userVersion ≠ schemaVersion then
    .failed (.raised ⟨.unsupportedSchemaVersionError,
      s!"unsupported database schema version {userVersion}"⟩)
  else if missing ≠ [] then
    .failed (.raised (storageIntegrityError
      ("database schema is missing tables: " ++ String.intercalate ", " missing)))
  else .identifying

/-- The last stage, where SQLite errors are translated. -/
def finished {α : Type} : Except Raised α → OpenStage
  | .ok _ => .opened
  | .error e => .failed (.raised (openError e))

/-- The stages in which the database is read. -/
def reads : OpenStage → Bool
  | .versioning _ | .listing _ _ | .identifying => true
  | _ => false

/-- The next access to the file. -/
inductive Step (create : Bool) :
    Option DatabaseFile → OpenStage → Option DatabaseFile → OpenStage → Prop
  | absent : create = false → Step create none .checking none (.failed .notFound)
  | check {file : Option DatabaseFile} : create = true ∨ file.isSome = true →
      Step create file .checking file (.preparing file.isSome)
  | prepare {file : Option DatabaseFile} {existed : Bool} :
      Step create file (.preparing existed) file (.connecting existed)
  | prepareFails {file : Option DatabaseFile} {existed : Bool} : create = true →
      Step create file (.preparing existed) file (.failed .osError)
  | connect {file : Option DatabaseFile} {existed : Bool} :
      Step create file (.connecting existed) (some (file.getD .blank)) (.versioning existed)
  | connectFails {file after : Option DatabaseFile} {existed : Bool} {e : Raised} :
      after = file ∨ after = some (file.getD .blank) → e ∈ configureErrors →
      Step create file (.connecting existed) after (.failed (.raised e))
  | version {file : DatabaseFile} {existed : Bool} :
      Step create (some file) (.versioning existed) (some file) (.listing existed file.userVersion)
  | list {file : DatabaseFile} {existed : Bool} {userVersion : Int} :
      Step create (some file) (.listing existed userVersion) (some file)
        (afterListing existed create userVersion file.tableNames)
  | make {file : DatabaseFile} (faults : List Fault) :
      Step create (some file) .initializing (some (initializeSchema testnet faults file).2)
        (finished (initializeSchema testnet faults file).1)
  | identify {file : DatabaseFile} :
      Step create (some file) .identifying (some file)
        (finished (SQLiteChainStorage.openExisting testnet file.tables))
  | readFails {file : DatabaseFile} {stage : OpenStage} : stage.reads = true →
      Step create (some file) stage (some file) (.failed (.raised (openError operationalError)))

end OpenStage

end OurCoin
