import OurCoin.Model.Opening
import OurCoin.Storage.Writers

/-!
# Opening a database at the same time

Any number of processes open one path and then work with the database. Their accesses to the file
come in any order, every access may fail, and a process may stop for good at any time.

* `Opening.Reachable.refines_writers`: the database is absent, or blank, or it was created once and
  for all, and everything that was done since then is a run of the writers that share it.
* `Opening.Reachable.failures`: why a database is not opened. Processes that do not create it find
  no database or one without tables; one that races with the creation can be told that the schema
  version is not supported.
* `foreign_kept`: a file that is not blank is never changed.

`_initialize_schema` is all or nothing (`initializeSchema_blank`, `initializeSchema_present`).
-/

set_option autoImplicit false

namespace OurCoin

open Raising Transactions

variable [Platform]

/-! ## Statements and faults -/

theorem tracks_insertTransactions (blockHash : Bytes) (transactions : List Transaction)
    (position : Nat) :
    Tracks operationalError (insertTransactions blockHash position transactions) := by
  induction transactions generalizing position with
  | nil => exact .pure ()
  | cons tx rest ih =>
      apply Tracks.bind (.lift _)
      intro row
      apply Tracks.bind (.execute _)
      intro _
      exact ih (position + 1)

theorem tracks_insertBlock (chain : Chain) (blockHash : Bytes) :
    Tracks operationalError (insertBlock chain blockHash) := by
  apply Tracks.bind (.lift _)
  intro block
  apply Tracks.bind (.lift _)
  intro record
  apply Tracks.bind (.lift _)
  intro row
  apply Tracks.bind (.execute _)
  intro _
  exact tracks_insertTransactions blockHash block.transactions 0

theorem tracks_insertConfirmed (block : Block) (transactions : List Transaction) :
    Tracks operationalError (insertConfirmed block transactions) := by
  induction transactions with
  | nil => exact .pure ()
  | cons tx rest ih =>
      apply Tracks.bind (.lift _)
      intro row
      apply Tracks.bind (.execute _)
      intro _
      exact ih

theorem tracks_insertCanonical (blocks : List Block) :
    Tracks operationalError (insertCanonical blocks) := by
  induction blocks with
  | nil => exact .pure ()
  | cons block rest ih =>
      apply Tracks.bind (.lift _)
      intro row
      apply Tracks.bind (.execute _)
      intro _
      apply Tracks.bind (tracks_insertConfirmed block block.transactions)
      intro _
      exact ih

omit [Platform] in
theorem tracks_insertAccounts (items : List (Text × Account)) :
    Tracks operationalError (insertAccounts items) := by
  induction items with
  | nil => exact .pure ()
  | cons item rest ih =>
      apply Tracks.bind (.lift _)
      intro row
      apply Tracks.bind (.execute _)
      intro _
      exact ih

theorem tracks_replaceDerivedState (chain : Chain) :
    Tracks operationalError (replaceDerivedState chain) := by
  apply Tracks.bind (.execute _)
  intro _
  apply Tracks.bind (.execute _)
  intro _
  apply Tracks.bind (.execute _)
  intro _
  apply Tracks.bind (.lift _)
  intro activeChain
  apply Tracks.bind (tracks_insertCanonical activeChain)
  intro _
  apply Tracks.bind (.lift _)
  intro state
  apply Tracks.bind (tracks_insertAccounts state.snapshot.accounts)
  intro _
  apply Tracks.bind (.lift _)
  intro supply
  exact .execute _

theorem tracks_insertGenesis (network : NetworkConfig) (chain : Chain) :
    Tracks operationalError (insertGenesis network chain) := by
  apply Tracks.bind (tracks_insertBlock chain chain.activeTipHash)
  intro _
  apply Tracks.bind (.lift _)
  intro supply
  apply Tracks.bind (.execute _)
  intro _
  exact tracks_replaceDerivedState chain

omit [Platform] in
theorem tracks_createTables (names : List String) :
    Tracks operationalError (createTables names) := by
  induction names with
  | nil => exact .pure ()
  | cons name rest ih =>
      apply Tracks.bind (.execute _)
      intro _
      exact ih

theorem tracks_schemaBody (network : NetworkConfig) (chain : Chain) :
    Tracks operationalError (schemaBody network chain) := by
  apply Tracks.bind (tracks_createTables createdTables)
  intro _
  apply Tracks.bind ((tracks_insertGenesis network chain).focus _ _)
  intro _
  apply Tracks.bind (.execute _)
  intro _
  apply Tracks.bind .commit
  intro _
  exact .pure ()

theorem inside_insertGenesis (network : NetworkConfig) (chain : Chain) :
    Inside (insertGenesis network chain) := by
  apply Inside.bind (inside_insertBlock chain chain.activeTipHash)
  intro _
  apply Inside.bind (.lift _)
  intro supply
  apply Inside.bind (.execute _ _)
  intro _
  exact inside_replaceDerivedState chain

omit [Platform] in
theorem inside_createTables (names : List String) : Inside (createTables names) := by
  induction names with
  | nil => exact .pure ()
  | cons name rest ih =>
      apply Inside.bind (.execute _ _)
      intro _
      exact ih

theorem closing_schemaBody (network : NetworkConfig) (chain : Chain) :
    Closing (fun _ => True) (schemaBody network chain) fun _ _ => True := by
  apply Closing.bind (inside_createTables createdTables)
  intro _
  apply Closing.bind ((inside_insertGenesis network chain).focus fun _ => rfl)
  intro _
  apply Closing.bind (Inside.execute _ _)
  intro _
  exact Closing.commit fun _ _ => trivial

/-! ## `_initialize_schema` -/

/-- The transaction of `_initialize_schema`. -/
def schemaTransaction : Sql DatabaseFile Raised Unit :=
  rollingBack id (do
    begin operationalError
    schemaBody testnet genesisChain)

theorem initializeSchema_eq (faults : List Fault) (file : DatabaseFile) :
    initializeSchema testnet faults file =
      ((schemaTransaction ⟨⟨file, none⟩, faults⟩).1,
        (schemaTransaction ⟨⟨file, none⟩, faults⟩).2.connection.committed) := by
  rw [initializeSchema, Chain.init_testnet, schemaTransaction]
  rfl

/-- What fails changes nothing. -/
theorem initializeSchema_error {faults : List Fault} {file : DatabaseFile} {e : Raised}
    (raised : (initializeSchema testnet faults file).1 = .error e) :
    (initializeSchema testnet faults file).2 = file := by
  rw [initializeSchema_eq] at raised ⊢
  rcases @transaction_cases _ _ _ operationalError id _ _ _ (closing_schemaBody testnet genesisChain)
    ⟨⟨file, none⟩, faults⟩ rfl trivial with ⟨_, -, same⟩ | ⟨_, _, returned, -, -⟩
  · exact congrArg Connection.committed same
  · rw [schemaTransaction, returned] at raised
    cases raised

theorem tracks_schemaTransaction : Tracks operationalError schemaTransaction :=
  @Tracks.rollingBack _ _ _ operationalError id _
    (.bind .begin fun _ => tracks_schemaBody testnet genesisChain)

/-- Faults make it fail, or they change nothing. -/
theorem initializeSchema_tracks (faults : List Fault) (file : DatabaseFile) :
    (initializeSchema testnet faults file).1 = .error operationalError ∨
      initializeSchema testnet faults file = initializeSchema testnet [] file := by
  rw [initializeSchema_eq, initializeSchema_eq]
  rcases tracks_schemaTransaction.agrees ⟨⟨file, none⟩, faults⟩ with
    failed | ⟨sameResult, sameConnection⟩
  · exact .inl failed
  · exact .inr (Prod.ext sameResult (congrArg Connection.committed sameConnection))

/-- The rows of a new database are those for the genesis block. -/
theorem insertGenesis_run {data : Tables}
    (opened : SQLiteChainStorage.openFresh testnet = .ok (.onTables data)) :
    insertGenesis testnet genesisChain ⟨⟨Tables.empty, some Tables.empty⟩, []⟩ =
      (.ok (), ⟨⟨Tables.empty, some data⟩, []⟩) := by
  have split : SQLiteChainStorage.initializeBody testnet genesisChain = (do
      insertGenesis testnet genesisChain
      commit operationalError
      return ()) := by
    simp only [SQLiteChainStorage.initializeBody, insertGenesis, bind_assoc]
  rw [SQLiteChainStorage.openFresh, Chain.init_testnet, ok_bind, split] at opened
  obtain ⟨kept, success⟩ := inside_insertGenesis testnet genesisChain
    ⟨⟨Tables.empty, some Tables.empty⟩, []⟩ Tables.empty rfl trivial
  have rest := (tracks_insertGenesis testnet genesisChain).no_faults
    ⟨Tables.empty, some Tables.empty⟩
  have begun : (begin operationalError : Statement Unit) ⟨⟨Tables.empty, none⟩, []⟩ =
      (.ok (), ⟨⟨Tables.empty, some Tables.empty⟩, []⟩) := rfl
  cases outcome : insertGenesis testnet genesisChain
      ⟨⟨Tables.empty, some Tables.empty⟩, []⟩ with
  | mk result after =>
      obtain ⟨⟨committed, working⟩, faults⟩ := after
      rw [outcome] at kept success rest
      obtain rfl : faults = [] := rest
      obtain rfl : committed = Tables.empty := kept
      simp only [rollingBack, bind_apply, begun, outcome] at opened
      cases result with
      | error e => cases opened
      | ok =>
          obtain ⟨rows, rfl, -⟩ := success () rfl
          have same := congrArg SQLiteChainStorage.connection (Except.ok.inj opened)
          obtain rfl : rows = data := congrArg Connection.committed same
          rfl

/-- A file after `_initialize_schema`. -/
def DatabaseFile.created (data : Tables) : DatabaseFile :=
  ⟨schemaVersion, createdTables.map text, data⟩

theorem initializeSchema_clean {data : Tables}
    (opened : SQLiteChainStorage.openFresh testnet = .ok (.onTables data)) :
    initializeSchema testnet [] .blank = (.ok (), .created data) := by
  have made : createTables createdTables ⟨⟨.blank, some .blank⟩, []⟩ =
      (.ok (), ⟨⟨.blank, some ⟨0, createdTables.map text, Tables.empty⟩⟩, []⟩) := by
    rfl
  have begun : (begin operationalError : Sql DatabaseFile Raised Unit) ⟨⟨.blank, none⟩, []⟩ =
      (.ok (), ⟨⟨.blank, some .blank⟩, []⟩) := rfl
  have focused := @focus_of_eq Tables Raised Unit DatabaseFile _ DatabaseFile.tables
    (fun tables file => { file with tables })
    ⟨⟨.blank, some ⟨0, createdTables.map text, Tables.empty⟩⟩, []⟩ _ _ (insertGenesis_run opened)
  rw [initializeSchema_eq, schemaTransaction, rollingBack, bind_apply, begun]
  simp only [schemaBody, bind_apply, made, focused]
  rfl

/-- **A blank file is initialized whole**, or nothing happens to it. -/
theorem initializeSchema_blank {data : Tables}
    (opened : SQLiteChainStorage.openFresh testnet = .ok (.onTables data)) (faults : List Fault) :
    initializeSchema testnet faults .blank = (.error operationalError, .blank) ∨
      initializeSchema testnet faults .blank = (.ok (), .created data) := by
  rcases initializeSchema_tracks faults .blank with failed | same
  · exact .inl (Prod.ext failed (initializeSchema_error failed))
  · exact .inr (same.trans (initializeSchema_clean opened))

/-- **A file with the tables is not initialized again.** -/
theorem initializeSchema_present {file : DatabaseFile} (present : text "blocks" ∈ file.tableNames)
    (faults : List Fault) :
    initializeSchema testnet faults file = (.error operationalError, file) := by
  have clean : (initializeSchema testnet [] file).1 = .error operationalError := by
    have refused : DatabaseFile.createTable "blocks" file = .error operationalError := by
      rw [DatabaseFile.createTable, raiseIf, if_pos present]
      rfl
    have begun : (begin operationalError : Sql DatabaseFile Raised Unit) ⟨⟨file, none⟩, []⟩ =
        (.ok (), ⟨⟨file, some file⟩, []⟩) := rfl
    have failed : createTables createdTables ⟨⟨file, some file⟩, []⟩ =
        (.error operationalError, ⟨⟨file, some file⟩, []⟩) := by
      rw [createdTables, createTables, bind_apply, execute, meetFault]
      simp only [refused]
      rfl
    rw [initializeSchema_eq, schemaTransaction, rollingBack, bind_apply, begun]
    simp only [schemaBody, bind_apply, failed]
    rfl
  have raised : (initializeSchema testnet faults file).1 = .error operationalError := by
    rcases initializeSchema_tracks faults file with failed | same
    · exact failed
    · rw [same, clean]
  exact Prod.ext raised (initializeSchema_error raised)

/-! ## The file and its processes -/

/-- A file, the calls of `open`, with their `create`, and the chains of the nodes that have loaded
it. -/
structure Opening (ι : Type) where
  file : Option DatabaseFile
  creates : ι → Bool
  stages : ι → OpenStage
  chains : ι → Option Chain

/-- Why a database of this program is not opened. -/
inductive Expected (create : Bool) : OpenFailure → Prop
  | notFound : create = false → Expected create .notFound
  | osError : create = true → Expected create .osError
  | noSchema : create = false → Expected create
      (.raised (storageIntegrityError "existing database has no OurCoin schema"))
  /-- The version was read before the database was created, and the tables after it. -/
  | raced : Expected create
      (.raised ⟨.unsupportedSchemaVersionError, "unsupported database schema version 0"⟩)
  | sqlite {e : Raised} : e ∈ configureErrors → Expected create (.raised e)

/-- Where a call of `open` can stand, when the database is complete or not. -/
def OpenStage.Possible (create : Bool) (complete : Prop) : OpenStage → Prop
  | .listing _ userVersion => userVersion = 0 ∨ userVersion = schemaVersion ∧ complete
  | .identifying | .opened => complete
  | .failed failure => Expected create failure
  | _ => True

namespace Opening

variable {ι : Type} [DecidableEq ι]

omit [DecidableEq ι] in
/-- Nothing has happened yet, and there is no file. -/
def Start (system : Opening ι) : Prop :=
  system.file = none ∧ system.stages = (fun _ => .checking) ∧ system.chains = fun _ => none

/-- A call of `open` goes on. -/
def Opens (system after : Opening ι) : Prop :=
  ∃ node file stage,
    OpenStage.Step (system.creates node) system.file (system.stages node) file stage ∧
    after = { system with file, stages := Function.update system.stages node stage }

/-- A node that has opened the database works with it. -/
def Works (system after : Opening ι) : Prop :=
  ∃ file next, system.file = some file ∧
    (∀ node, system.stages node ≠ .opened → next.chains node = system.chains node) ∧
    Writers.Step ⟨file.tables, system.chains⟩ next ∧
    after = { system with
      file := some { file with tables := next.data }
      chains := next.chains }

/-- The system is reached by opens and by the work of opened databases. -/
def Reachable (system : Opening ι) : Prop :=
  ∃ start : Opening ι, start.Start ∧
    Relation.ReflTransGen (fun before after => before.Opens after ∨ before.Works after) start system

end Opening

/-! ## What a call does -/

variable {create : Bool} {file file' : Option DatabaseFile} {stage stage' : OpenStage}

omit [Platform] in
theorem Expected.openError_operationalError :
    Expected create (.raised (openError operationalError)) :=
  .sqlite (List.mem_cons_self ..)

/-- On a blank file, a call goes on or creates the database. -/
theorem OpenStage.Step.blank {data : Tables}
    (fresh : SQLiteChainStorage.openFresh testnet = .ok (.onTables data))
    (step : OpenStage.Step create file stage file' stage')
    (blank : file = none ∨ file = some .blank) (possible : stage.Possible create False) :
    (file' = none ∨ file' = some .blank) ∧ stage'.Possible create False ∨
      file' = some (.created data) ∧ stage' = .opened := by
  cases step with
  | absent noCreate => exact .inl ⟨.inl rfl, .notFound noCreate⟩
  | check | prepare => exact .inl ⟨blank, trivial⟩
  | prepareFails creates => exact .inl ⟨blank, .osError creates⟩
  | connect =>
      refine .inl ⟨.inr ?_, trivial⟩
      rcases blank with rfl | rfl <;> rfl
  | connectFails touched known =>
      refine .inl ⟨?_, .sqlite known⟩
      rcases touched with rfl | rfl
      · exact blank
      · rcases blank with rfl | rfl <;> exact .inr rfl
  | version =>
      rcases blank with none | some
      · cases none
      · obtain rfl := Option.some_inj.mp some
        exact .inl ⟨.inr rfl, .inl rfl⟩
  | @list _ existed userVersion =>
      rcases blank with none | some
      · cases none
      obtain rfl := Option.some_inj.mp some
      obtain rfl : userVersion = 0 := possible.resolve_right fun both => both.2
      refine .inl ⟨.inr rfl, ?_⟩
      rw [OpenStage.afterListing, if_pos ⟨rfl, rfl⟩]
      split
      · rename_i both
        exact .noSchema both.2
      · trivial
  | make faults =>
      rcases blank with none | some
      · cases none
      obtain rfl := Option.some_inj.mp some
      rcases initializeSchema_blank fresh faults with same | same
      · rw [same]
        exact .inl ⟨.inr rfl, Expected.openError_operationalError⟩
      · rw [same]
        exact .inr ⟨rfl, rfl⟩
  | identify => exact possible.elim
  | readFails =>
      rcases blank with none | some
      · cases none
      · exact .inl ⟨.inr some, Expected.openError_operationalError⟩

/-- On a database that was created, a call goes on and changes nothing. -/
theorem OpenStage.Step.created {rows : Tables} {storage : SQLiteChainStorage}
    (reopens : SQLiteChainStorage.openExisting testnet rows = .ok storage)
    (step : OpenStage.Step create (some (.created rows)) stage file' stage')
    (possible : stage.Possible create True) :
    file' = some (.created rows) ∧ stage'.Possible create True := by
  cases step with
  | check | prepare => exact ⟨rfl, trivial⟩
  | prepareFails creates => exact ⟨rfl, .osError creates⟩
  | connect => exact ⟨rfl, trivial⟩
  | connectFails touched known =>
      refine ⟨?_, .sqlite known⟩
      rcases touched with rfl | rfl <;> rfl
  | version => exact ⟨rfl, .inr ⟨rfl, trivial⟩⟩
  | @list _ existed userVersion =>
      refine ⟨rfl, ?_⟩
      rcases possible with rfl | ⟨rfl, -⟩
      · exact .raced
      · exact trivial
  | make faults =>
      rw [initializeSchema_present (List.mem_map_of_mem (List.mem_cons_self ..)) faults]
      exact ⟨rfl, Expected.openError_operationalError⟩
  | identify =>
      rw [show SQLiteChainStorage.openExisting testnet (DatabaseFile.created rows).tables = _ from
        reopens]
      exact ⟨rfl, trivial⟩
  | readFails => exact ⟨rfl, Expected.openError_operationalError⟩

/-! ## All calls -/

namespace Opening

variable {ι : Type} [DecidableEq ι] {system after : Opening ι}

/-- No database yet: every call still opens the file. -/
structure Fresh (system : Opening ι) : Prop where
  blank : system.file = none ∨ system.file = some .blank
  possible : ∀ node, (system.stages node).Possible (system.creates node) False
  chains_eq : system.chains = fun _ => none

/-- A database that was created, with the writers that share it. -/
structure Created (system : Opening ι) (data : Tables) : Prop where
  file_eq : system.file = some (.created data)
  writers : Writers.Reachable ⟨data, system.chains⟩
  possible : ∀ node, (system.stages node).Possible (system.creates node) True

omit [Platform] [DecidableEq ι] in
/-- What is possible before the creation is possible after it. -/
theorem possible_mono {create : Bool} {stage : OpenStage} (possible : stage.Possible create False) :
    stage.Possible create True := by
  cases stage with
  | listing existed userVersion => exact .inl (possible.resolve_right fun both => both.2)
  | identifying | opened => trivial
  | failed failure => exact possible
  | checking | preparing | connecting | versioning | initializing => trivial

omit [Platform] in
theorem possible_update {complete : Prop} {node : ι} {stage : OpenStage}
    (possible : ∀ node, (system.stages node).Possible (system.creates node) complete)
    (own : stage.Possible (system.creates node) complete) (other : ι) :
    (Function.update system.stages node stage other).Possible (system.creates other) complete := by
  by_cases same : other = node
  · subst same
    rwa [Function.update_self]
  · rw [Function.update_of_ne same]
    exact possible other

/-- The database of writers opens and loads. -/
theorem Created.loads {data : Tables} (created : Created system data) :
    SQLiteChainStorage.openExisting testnet data = .ok (.onTables data) ∧
      ∃ chain, (SQLiteChainStorage.onTables data).loadChain = .ok chain ∧ chain.Reachable := by
  obtain ⟨chain, invariant⟩ := created.writers.exists_invariant
  obtain ⟨accepted, run⟩ := invariant.exists_run
  exact ⟨(LocalNode.reopen_eq run invariant.represents).1, chain, invariant.loadChain_eq,
    invariant.reachable⟩

/-- A step before the creation. -/
theorem Fresh.step (fresh : Fresh system) (step : system.Opens after ∨ system.Works after) :
    Fresh after ∨ ∃ data, Created after data := by
  obtain ⟨data, opened, -⟩ := exists_openFresh
  rcases step with ⟨node, file, stage, step, rfl⟩ | ⟨file, next, isFile, -, works, rfl⟩
  · rcases step.blank opened fresh.blank (fresh.possible node) with ⟨blank, own⟩ | ⟨rfl, rfl⟩
    · exact .inl ⟨blank, possible_update fresh.possible own, fresh.chains_eq⟩
    · refine .inr ⟨data, rfl, ?_, possible_update (fun node => possible_mono (fresh.possible node))
        trivial⟩
      rw [fresh.chains_eq]
      exact .start opened
  · -- There is nothing to load, and no one has a chain.
    rcases fresh.blank with none | some
    · rw [none] at isFile
      cases isFile
    obtain rfl : DatabaseFile.blank = file := Option.some_inj.mp (some.symm.trans isFile)
    cases works with
    | load node opened =>
        simp only [SQLiteChainStorage.openExisting, Chain.init_testnet, ok_bind,
          SQLiteChainStorage.validateIdentity, bind_eq_ok] at opened
        obtain ⟨_, ⟨_, -, row, missing, -⟩, -⟩ := opened
        cases missing
    | persist node faults own =>
        rw [fresh.chains_eq] at own
        cases own

/-- A step after the creation. -/
theorem Created.step {data : Tables} (created : Created system data)
    (step : system.Opens after ∨ system.Works after) : ∃ data', Created after data' := by
  rcases step with ⟨node, file, stage, step, rfl⟩ | ⟨file, next, isFile, -, works, rfl⟩
  · rw [created.file_eq] at step
    obtain ⟨rfl, own⟩ := step.created created.loads.1 (created.possible node)
    exact ⟨data, rfl, created.writers, possible_update created.possible own⟩
  · obtain rfl : DatabaseFile.created data = file :=
      Option.some_inj.mp (created.file_eq.symm.trans isFile)
    exact ⟨next.data, rfl, created.writers.step works, created.possible⟩

theorem Reachable.cases (reachable : system.Reachable) :
    Fresh system ∨ ∃ data, Created system data := by
  obtain ⟨start, ⟨noFile, stages, chains⟩, run⟩ := reachable
  induction run with
  | refl =>
      refine .inl ⟨.inl noFile, fun node => ?_, chains⟩
      rw [stages]
      trivial
  | tail _ step ih =>
      rcases ih with fresh | ⟨data, created⟩
      · exact fresh.step step
      · exact .inr (created.step step)

theorem Reachable.opens (reachable : system.Reachable) (node : ι) {file : Option DatabaseFile}
    {stage : OpenStage} (step : OpenStage.Step (system.creates node) system.file
      (system.stages node) file stage) :
    Reachable { system with file, stages := Function.update system.stages node stage } := by
  obtain ⟨start, starts, run⟩ := reachable
  exact ⟨start, starts, run.tail (.inl ⟨node, file, stage, step, rfl⟩)⟩

/-- Two processes race: one creates the database between the two reads of the other. -/
theorem exists_race : ∃ system : Opening Bool, system.Reachable ∧ system.creates false = true ∧
    system.stages true = .opened ∧ system.stages false =
      .failed (.raised ⟨.unsupportedSchemaVersionError,
        "unsupported database schema version 0"⟩) := by
  obtain ⟨data, opened, -⟩ := exists_openFresh
  have start : Reachable (⟨none, fun _ => true, fun _ => .checking, fun _ => none⟩ : Opening Bool) :=
    ⟨_, ⟨rfl, rfl, rfl⟩, .refl⟩
  have first := (((start.opens true (.check (.inl rfl))).opens true .prepare).opens true
    .connect).opens true .version
  have second := (((first.opens false (.check (.inl rfl))).opens false .prepare).opens false
    .connect).opens false .version
  have created := (second.opens true .list).opens true (.make [])
  refine ⟨_, created.opens false .list, rfl, ?_, ?_⟩
  · change OpenStage.finished (initializeSchema testnet [] .blank).1 = .opened
    rw [initializeSchema_clean opened]
    rfl
  · change OpenStage.afterListing true true 0
      (initializeSchema testnet [] .blank).2.tableNames = _
    rw [initializeSchema_clean opened]
    rfl

/-- **A database is created once**, however many processes open it at the same time: it is absent
or blank, and no one has opened it, or it is in a state of the writers that share a new database,
and then it opens and loads. -/
theorem Reachable.refines_writers (reachable : system.Reachable) :
    ((system.file = none ∨ system.file = some .blank) ∧ (∀ node, system.stages node ≠ .opened) ∧
      system.chains = fun _ => none) ∨
    ∃ data, system.file = some (.created data) ∧ Writers.Reachable ⟨data, system.chains⟩ ∧
      SQLiteChainStorage.openExisting testnet data = .ok (.onTables data) ∧
      ∃ chain, (SQLiteChainStorage.onTables data).loadChain = .ok chain ∧ chain.Reachable := by
  rcases reachable.cases with fresh | ⟨data, created⟩
  · refine .inl ⟨fresh.blank, fun node opened => ?_, fresh.chains_eq⟩
    have possible := fresh.possible node
    rw [opened] at possible
    exact possible
  · exact .inr ⟨data, created.file_eq, created.writers, created.loads⟩

omit [Platform] in
/-- After the race the database is there. -/
theorem refines_writers_race : ∃ system : Opening Bool, system.stages true = .opened ∧
    (((system.file = none ∨ system.file = some .blank) ∧
        (∀ node, system.stages node ≠ .opened) ∧ system.chains = fun _ => none) ∨
      ∃ data, system.file = some (.created data) ∧
        @Writers.Reachable asciiPlatform Bool _ ⟨data, system.chains⟩ ∧
        @SQLiteChainStorage.openExisting asciiPlatform testnet data = .ok (.onTables data) ∧
        ∃ chain, @SQLiteChainStorage.loadChain asciiPlatform (.onTables data) = .ok chain ∧
          @Chain.Reachable asciiPlatform chain) := by
  obtain ⟨system, reachable, -, opened, -⟩ := @exists_race asciiPlatform
  exact ⟨system, opened, @Reachable.refines_writers asciiPlatform Bool _ _ reachable⟩

/-- **Why a database is not opened**: it is not there, it is blank and may not be created, the
operating system or SQLite fails, or another process creates it between two reads. -/
theorem Reachable.failures (reachable : system.Reachable) {node : ι} {failure : OpenFailure}
    (failed : system.stages node = .failed failure) : Expected (system.creates node) failure := by
  rcases reachable.cases with fresh | ⟨data, created⟩
  · have possible := fresh.possible node
    rwa [failed] at possible
  · have possible := created.possible node
    rwa [failed] at possible

omit [Platform] in
/-- A process is told that the schema version is not supported. -/
theorem failures_race : ∃ system : Opening Bool, @Reachable asciiPlatform Bool _ system ∧
    system.creates false = true ∧ Expected (system.creates false)
      (.raised ⟨.unsupportedSchemaVersionError, "unsupported database schema version 0"⟩) := by
  obtain ⟨system, reachable, creates, -, failed⟩ := @exists_race asciiPlatform
  exact ⟨system, reachable, creates, @Reachable.failures asciiPlatform Bool _ _ reachable _ _ failed⟩

end Opening

/-! ## Other files -/

/-- Where a call of `open` can stand on a file that is not blank. -/
def OpenStage.OnForeign (file : DatabaseFile) : OpenStage → Prop
  | .listing _ userVersion => userVersion = file.userVersion
  | .initializing => False
  | .identifying => file.userVersion = schemaVersion ∧
      ∀ name ∈ requiredTables, text name ∈ file.tableNames
  | .opened => (file.userVersion = schemaVersion ∧
      ∀ name ∈ requiredTables, text name ∈ file.tableNames) ∧
      ∃ storage, SQLiteChainStorage.openExisting testnet file.tables = .ok storage
  | _ => True

/-- A file that is not blank is not changed. -/
theorem OpenStage.Step.foreign {foreign : DatabaseFile}
    (notBlank : ¬ (foreign.userVersion = 0 ∧ foreign.tableNames = []))
    (step : OpenStage.Step create (some foreign) stage file' stage')
    (stands : stage.OnForeign foreign) : file' = some foreign ∧ stage'.OnForeign foreign := by
  cases step with
  | check | prepare | prepareFails | connect | readFails => exact ⟨rfl, trivial⟩
  | connectFails touched =>
      refine ⟨?_, trivial⟩
      rcases touched with rfl | rfl <;> rfl
  | version => exact ⟨rfl, rfl⟩
  | @list _ existed userVersion =>
      refine ⟨rfl, ?_⟩
      obtain rfl : userVersion = foreign.userVersion := stands
      rw [OpenStage.afterListing]
      simp only [if_neg notBlank]
      split
      · trivial
      · rename_i supported
        split
        · trivial
        · rename_i complete
          refine ⟨not_not.mp supported, fun name required => ?_⟩
          by_contra missing
          exact complete (List.ne_nil_of_mem
            (List.mem_filter.mpr ⟨required, decide_eq_true missing⟩))
  | make => exact stands.elim
  | identify =>
      refine ⟨rfl, ?_⟩
      cases outcome : SQLiteChainStorage.openExisting testnet foreign.tables with
      | error e => trivial
      | ok storage => exact ⟨stands, storage, outcome⟩

/-- One process reads what is in an existing file. -/
theorem Opening.exists_listing (file : DatabaseFile) :
    Relation.ReflTransGen (@Opening.Opens _ Unit _)
      ⟨some file, fun _ => true, fun _ => .checking, fun _ => none⟩
      ⟨some file, fun _ => true,
        fun _ => .afterListing true true file.userVersion file.tableNames, fun _ => none⟩ := by
  have opens : ∀ (stage : OpenStage) {stage' : OpenStage},
      OpenStage.Step true (some file) stage (some file) stage' →
      Opening.Opens (⟨some file, fun _ => true, fun _ => stage, fun _ => none⟩ : Opening Unit)
        ⟨some file, fun _ => true, fun _ => stage', fun _ => none⟩ := by
    intro stage stage' step
    refine ⟨(), _, _, step, ?_⟩
    congr 1
  exact ((((Relation.ReflTransGen.single (opens .checking (.check (.inl rfl)))).tail
    (opens _ .prepare)).tail (opens _ .connect)).tail (opens _ .version)).tail (opens _ .list)

/-- One process opens a database that was created. -/
theorem Opening.exists_reopening {data : Tables} {storage : SQLiteChainStorage}
    (reopens : SQLiteChainStorage.openExisting testnet data = .ok storage) :
    Relation.ReflTransGen (@Opening.Opens _ Unit _)
      ⟨some (.created data), fun _ => true, fun _ => .checking, fun _ => none⟩
      ⟨some (.created data), fun _ => true, fun _ => .opened, fun _ => none⟩ := by
  refine (Opening.exists_listing (.created data)).tail ⟨(), some (.created data), .opened, ?_, ?_⟩
  · have identified := @OpenStage.Step.identify _ true (.created data)
    rw [show SQLiteChainStorage.openExisting testnet (DatabaseFile.created data).tables = _ from
      reopens] at identified
    exact identified
  · congr 1

/-- **A file that is not blank is never changed** by opening it, and only a database with the
schema version, the tables and the identity of this program is opened. -/
theorem foreign_kept {ι : Type} [DecidableEq ι] {foreign : DatabaseFile}
    (notBlank : ¬ (foreign.userVersion = 0 ∧ foreign.tableNames = [])) {start system : Opening ι}
    (isForeign : start.file = some foreign) (checking : start.stages = fun _ => .checking)
    (run : Relation.ReflTransGen Opening.Opens start system) :
    system.file = some foreign ∧ ∀ node, system.stages node = .opened →
      foreign.userVersion = schemaVersion ∧
      (∀ name ∈ requiredTables, text name ∈ foreign.tableNames) ∧
      ∃ storage, SQLiteChainStorage.openExisting testnet foreign.tables = .ok storage := by
  have stands : system.file = some foreign ∧ ∀ node, (system.stages node).OnForeign foreign := by
    induction run with
    | refl =>
        refine ⟨isForeign, fun node => ?_⟩
        rw [checking]
        trivial
    | tail _ step ih =>
        obtain ⟨same, stands⟩ := ih
        obtain ⟨node, file, stage, step, rfl⟩ := step
        rw [same] at step
        obtain ⟨rfl, own⟩ := step.foreign notBlank (stands node)
        refine ⟨rfl, fun other => ?_⟩
        dsimp only
        by_cases isNode : other = node
        · subst isNode
          rw [Function.update_self]
          exact own
        · rw [Function.update_of_ne isNode]
          exact stands other
  refine ⟨stands.1, fun node opened => ?_⟩
  have own := stands.2 node
  rw [opened] at own
  exact ⟨own.1.1, own.1.2, own.2⟩

/-- A database of another program. -/
def DatabaseFile.notes : DatabaseFile := ⟨7, [text "notes"], .empty⟩

omit [Platform] in
/-- A database of another program is refused, one of this program is opened, and both are kept. -/
theorem foreign_kept_notes :
    (∃ system : Opening Unit, Relation.ReflTransGen (@Opening.Opens asciiPlatform Unit _)
      ⟨some .notes, fun _ => true, fun _ => .checking, fun _ => none⟩ system ∧
      system.stages () = .failed (.raised
        ⟨.unsupportedSchemaVersionError, "unsupported database schema version 7"⟩) ∧
      system.file = some .notes) ∧
    ∃ (data : Tables) (system : Opening Unit),
      Relation.ReflTransGen (@Opening.Opens asciiPlatform Unit _)
        ⟨some (.created data), fun _ => true, fun _ => .checking, fun _ => none⟩ system ∧
      system.stages () = .opened ∧ system.file = some (.created data) ∧
      ∃ storage, @SQLiteChainStorage.openExisting asciiPlatform testnet data = .ok storage := by
  constructor
  · have refused := @Opening.exists_listing asciiPlatform .notes
    exact ⟨_, refused, rfl, (@foreign_kept asciiPlatform Unit _ _ (by decide) _ _ rfl rfl refused).1⟩
  · obtain ⟨data, -, represents⟩ := @exists_openFresh asciiPlatform
    have run := @Chain.Run.init asciiPlatform _ (@Chain.init_testnet asciiPlatform)
    obtain ⟨reopens, -⟩ := @LocalNode.reopen_eq asciiPlatform _ _ _ run represents
    have notBlank : ¬ ((DatabaseFile.created data).userVersion = 0 ∧
        (DatabaseFile.created data).tableNames = []) := fun both => by cases both.1
    have reopening := @Opening.exists_reopening asciiPlatform _ _ reopens
    obtain ⟨kept, identified⟩ := @foreign_kept asciiPlatform Unit _ _ notBlank _ _ rfl rfl reopening
    exact ⟨data, _, reopening, rfl, kept, (identified () rfl).2.2⟩

end OurCoin
