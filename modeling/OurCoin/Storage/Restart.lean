import OurCoin.Storage.Loading

/-!
# Restarting a persistent node

A node whose database was created by it, over any calls, faults and restarts.

* `LocalNode.PersistentRun` lists such runs together with the blocks whose submission
  succeeded.
* `Chain.fed` is the chain in memory that was fed the same blocks.
* Between calls the database is open, idle and represents the chain of the node
  (`LocalNode.Persisted`), which every step keeps.
* `LocalNode.PersistentRun.restart_equivalent` concludes that the node always has the chain
  in memory, that a restart finds it again, and that the canonical index is its active
  chain.
-/

set_option autoImplicit false

namespace OurCoin

open Raising Transactions

variable [Platform]

/-- `for block in blocks: chain.add_block(block)`. -/
def Chain.addBlocks (chain : Chain) (blocks : List Block) : Except Raised Chain :=
  blocks.foldlM (fun chain block =>
    match chain.addBlock block with
    | (.ok _, grown) => .ok grown
    | (.error e, _) => .error e) chain

/-- The chain in memory that was fed the given blocks. -/
def Chain.fed (blocks : List Block) : Except Raised Chain := do
  (← Chain.init testnet).addBlocks blocks

/-- Without blocks, the initial chain. -/
theorem Chain.fed_nil : Chain.fed [] = .ok genesisChain := by
  rw [Chain.fed, Chain.init_testnet]
  rfl

/-- One more block. -/
theorem Chain.fed_concat {blocks : List Block} {block : Block} {chain grown : Chain}
    {update : ChainUpdate} (before : Chain.fed blocks = .ok chain)
    (added : chain.addBlock block = (.ok update, grown)) :
    Chain.fed (blocks ++ [block]) = .ok grown := by
  rw [Chain.fed, bind_eq_ok] at before ⊢
  obtain ⟨initial, started, fed⟩ := before
  refine ⟨initial, started, ?_⟩
  rw [Chain.addBlocks, foldlM_concat_eq_ok]
  exact ⟨chain, fed, by rw [added]⟩

omit [Platform] in
theorem firstChain_fed : @Chain.fed asciiPlatform [firstBlock] = .ok firstChain :=
  @Chain.fed_concat asciiPlatform [] firstBlock _ _ _ (@Chain.fed_nil asciiPlatform) firstBlock_added

namespace LocalNode

/-- The runs of a node on a database that it created, with the blocks that its
`submit_block` accepted, in order. `send` and `mine` make the calls that appear here. -/
inductive PersistentRun : List Block → LocalNode → Prop
  | start {storage : SQLiteChainStorage} {node : LocalNode} :
      SQLiteChainStorage.openFresh testnet = .ok storage →
      LocalNode.new testnet (some storage) = .ok node → PersistentRun [] node
  | transact {accepted : List Block} {node : LocalNode} (tx : Transaction) :
      PersistentRun accepted node → PersistentRun accepted (node.submitTransaction tx).2
  | accept {accepted : List Block} {node grown : LocalNode} {block : Block} {faults : List Fault}
      {update : ChainUpdate} :
      PersistentRun accepted node → node.submitBlock block faults = (.ok update, grown) →
      PersistentRun (accepted ++ [block]) grown
  | refuse {accepted : List Block} {node after : LocalNode} {block : Block} {faults : List Fault}
      {e : Raised} :
      PersistentRun accepted node → node.submitBlock block faults = (.error e, after) →
      PersistentRun accepted after
  | restart {accepted : List Block} {node restarted : LocalNode}
      {storage reopened : SQLiteChainStorage} :
      PersistentRun accepted node → node.close.storage = some storage →
      SQLiteChainStorage.openExisting testnet storage.connection.committed = .ok reopened →
      LocalNode.new testnet (some reopened) = .ok restarted → PersistentRun accepted restarted

/-- What holds of such a node between calls. -/
structure Persisted (accepted : List Block) (node : LocalNode) : Prop where
  invariant : node.Invariant
  fed : Chain.fed accepted = .ok node.chain
  run : Chain.Run accepted node.chain
  exists_tables : ∃ data, node.storage = some (.onTables data) ∧
    Represents data node.chain

/-- A database that represents a chain is opened again, and loads that chain. -/
theorem reopen_eq {accepted : List Block} {chain : Chain} {data : Tables}
    (run : Chain.Run accepted chain) (represents : Represents data chain) :
    SQLiteChainStorage.openExisting testnet data =
        .ok (.onTables data) ∧
      LocalNode.new testnet (some (.onTables data)) =
        .ok ⟨chain, Mempool.empty, some (.onTables data)⟩ := by
  have identity : (SQLiteChainStorage.onTables data).validateIdentity = .ok () :=
    validateIdentity_eq represents.identity rfl rfl rfl
  have loaded : (SQLiteChainStorage.onTables data).loadChain =
      .ok chain :=
    @Represents.loadChain_eq _ (.onTables data) _ represents _ run rfl rfl rfl
  constructor
  · rw [SQLiteChainStorage.openExisting, Chain.init_testnet, ok_bind]
    change (do (SQLiteChainStorage.onTables data).validateIdentity; return SQLiteChainStorage.onTables data) = _
    rw [identity, ok_bind, pure_eq_ok]
  · rw [LocalNode.new, loaded]
    simp [SQLiteChainStorage.onTables]

namespace Persisted

variable {accepted : List Block} {node : LocalNode}

/-- The tables of the database of the node are the committed ones. -/
theorem represents (persisted : Persisted accepted node) {storage : SQLiteChainStorage}
    (stored : storage ∈ node.storage) : Represents storage.tables node.chain ∧
      storage = .onTables storage.tables := by
  obtain ⟨data, opened, represents⟩ := persisted.exists_tables
  rw [opened, Option.mem_some_iff] at stored
  subst stored
  exact ⟨represents, rfl⟩

/-- A new node on a new database. -/
theorem start {storage : SQLiteChainStorage}
    (opened : SQLiteChainStorage.openFresh testnet = .ok storage)
    (created : LocalNode.new testnet (some storage) = .ok node) : Persisted [] node := by
  obtain ⟨data, rfl, represents⟩ := Represents.openFresh opened
  have run : Chain.Run [] genesisChain := .init Chain.init_testnet
  rw [(reopen_eq run represents).2] at created
  have invariant : node.Invariant := by
    apply @Invariant.new _ _ (some (.onTables data))
    · rintro _ ⟨⟩
      rfl
    · rw [(reopen_eq run represents).2, created]
  cases created
  exact ⟨invariant, Chain.fed_nil, run, data, rfl, represents⟩

/-- A transaction changes at most the pool. -/
theorem transact (persisted : Persisted accepted node) (tx : Transaction) :
    Persisted accepted (node.submitTransaction tx).2 := by
  have same : (node.submitTransaction tx).2.chain = node.chain ∧
      (node.submitTransaction tx).2.storage = node.storage := by
    rw [LocalNode.submitTransaction]
    split
    · exact ⟨rfl, rfl⟩
    · exact ⟨rfl, rfl⟩
  refine ⟨persisted.invariant.submitTransaction tx, ?_, ?_, ?_⟩
  · rw [same.1]
    exact persisted.fed
  · rw [same.1]
    exact persisted.run
  · rw [same.1, same.2]
    exact persisted.exists_tables

/-- **An accepted block** is fed to the chain, and the database represents the result. -/
theorem accept (persisted : Persisted accepted node) {grown : LocalNode} {block : Block}
    {faults : List Fault} {update : ChainUpdate}
    (outcome : node.submitBlock block faults = (.ok update, grown)) :
    Persisted (accepted ++ [block]) grown := by
  have invariant := persisted.invariant.submitBlock block faults
  rw [outcome] at invariant
  have refines := persisted.run.reachable.refines
  obtain ⟨data, opened, represents⟩ := persisted.exists_tables
  have next : ∀ {update' : ChainUpdate} {chain : Chain} {storage : Option SQLiteChainStorage},
      node.chain.addBlock block = (.ok update', chain) →
      Persists node.storage chain update' faults storage →
      grown.chain = chain → grown.storage = storage → Persisted (accepted ++ [block]) grown := by
    rintro update' chain storage added persists rfl rfl
    have run : Chain.Run (accepted ++ [block]) grown.chain := by
      have longer := persisted.run.accept (congrArg Prod.fst added)
      rwa [added] at longer
    rw [opened] at persists
    obtain ⟨inserted, after, persistedOk, stored⟩ := persists
    obtain ⟨data', rfl, represents'⟩ := represents.persist rfl refines added persistedOk
    exact ⟨invariant, Chain.fed_concat persisted.fed added, run, data', stored, represents'⟩
  rcases persisted.invariant.submitBlock_cases block faults with ⟨e, raised⟩ |
    ⟨added, storage, -, run, persists, returned⟩ |
    ⟨added, meeting, common, left, right, mempool, storage, state, -, run, -, persists, -, -, -,
      returned⟩
  · rw [raised] at outcome
    cases outcome
  · rw [returned] at outcome
    cases outcome
    exact next run persists rfl rfl
  · rw [returned] at outcome
    cases outcome
    exact next run persists rfl rfl

/-- A refused block changes nothing, whether a rule or a fault refused it. -/
theorem refuse (persisted : Persisted accepted node) {after : LocalNode} {block : Block}
    {faults : List Fault} {e : Raised}
    (outcome : node.submitBlock block faults = (.error e, after)) : Persisted accepted after := by
  have same := persisted.invariant.submitBlock_error (congrArg Prod.fst outcome)
  rw [outcome] at same
  cases same
  exact persisted

/-- **A restart finds the chain again.** -/
theorem restart (persisted : Persisted accepted node) {restarted : LocalNode}
    {storage reopened : SQLiteChainStorage} (closed : node.close.storage = some storage)
    (opened : SQLiteChainStorage.openExisting testnet storage.connection.committed = .ok reopened)
    (created : LocalNode.new testnet (some reopened) = .ok restarted) :
    Persisted accepted restarted := by
  obtain ⟨data, stored, represents⟩ := persisted.exists_tables
  obtain ⟨opens, loads⟩ := reopen_eq persisted.run represents
  rw [close, stored] at closed
  cases closed
  rw [show (SQLiteChainStorage.close (.onTables data)).connection.committed
    = data from rfl, opens] at opened
  cases opened
  have invariant : restarted.Invariant := by
    apply @Invariant.new _ _ (some (.onTables data))
    · rintro _ ⟨⟩
      rfl
    · exact created
  rw [loads] at created
  cases created
  exact ⟨invariant, persisted.fed, persisted.run, data, rfl, represents⟩

end Persisted

/-- Every state of a run is persisted. -/
theorem PersistentRun.persisted {accepted : List Block} {node : LocalNode}
    (run : PersistentRun accepted node) : Persisted accepted node := by
  induction run with
  | start opened created => exact .start opened created
  | transact tx _ ih => exact ih.transact tx
  | accept _ outcome ih => exact ih.accept outcome
  | refuse _ outcome ih => exact ih.refuse outcome
  | restart _ closed opened created ih => exact ih.restart closed opened created

/-- A persistent node is equivalent to a chain in memory. -/
structure RestartEquivalent (accepted : List Block) (node : LocalNode) : Prop where
  /-- The chain is the one that was fed the accepted blocks. -/
  chain_eq : Chain.fed accepted = .ok node.chain
  /-- The database of the node loads this chain. -/
  loads : ∃ storage, node.storage = some storage ∧ storage.loadChain = .ok node.chain
  /-- The database that a restart opens loads this chain. -/
  restarts : ∃ storage, node.close.storage = some storage ∧ ∃ reopened,
    SQLiteChainStorage.openExisting testnet storage.connection.committed = .ok reopened ∧
    reopened.loadChain = .ok node.chain ∧
    LocalNode.new testnet (some reopened) = .ok ⟨node.chain, Mempool.empty, some reopened⟩
  /-- The canonical index is the active chain, up to the height of the tip. -/
  canonical : ∃ blocks, node.chain.activeChain = .ok blocks ∧
    (blocks.length : Int) = node.chain.height + 1 ∧
    ∀ storage ∈ node.storage, ∀ (height : Nat) (block : Block), blocks[height]? = some block →
      storage.getCanonicalBlockByHeight height = .ok block

/-- **Restarts are invisible**: whatever was submitted, refused or interrupted, and however
often the node was restarted, it has the chain in memory of the accepted blocks, and its
database loads this chain. -/
theorem PersistentRun.restart_equivalent {accepted : List Block} {node : LocalNode}
    (run : PersistentRun accepted node) : RestartEquivalent accepted node := by
  have persisted := run.persisted
  have refines := persisted.run.reachable.refines
  obtain ⟨data, stored, represents⟩ := persisted.exists_tables
  obtain ⟨opens, loads⟩ := reopen_eq persisted.run represents
  obtain ⟨path, branch, ends⟩ := refines.exists_branch node.chain.tipEntry_stored
  have loaded : (SQLiteChainStorage.onTables data).loadChain =
      .ok node.chain :=
    @Represents.loadChain_eq _ (.onTables data) _ represents _ persisted.run rfl rfl rfl
  refine ⟨persisted.fed, ⟨_, stored, loaded⟩, ?_, pathBlocks path,
    Chain.Reachable.activeChain_eq ends, ?_, ?_⟩
  · refine ⟨(SQLiteChainStorage.onTables data).close, ?_, _, opens,
      loaded, loads⟩
    rw [close, stored]
    rfl
  · have length := ends.length_eq
    rw [pathBlocks, List.length_map, Chain.height]
    omega
  · intro storage member height block found
    obtain ⟨same, shape⟩ := persisted.represents member
    have isOpen : storage.closed = false := by
      rw [shape]
      rfl
    exact same.getCanonicalBlockByHeight_eq refines isOpen (Chain.Reachable.activeChain_eq ends) found

set_option maxRecDepth 100000 in
omit [Platform] in
/-- A new node on a new database accepts the first block. -/
theorem exists_firstPersistent :
    ∃ node, @PersistentRun asciiPlatform [firstBlock] node := by
  have evaluated : (do
      let storage ← @SQLiteChainStorage.openFresh asciiPlatform testnet
      let node ← @LocalNode.new asciiPlatform testnet (some storage)
      (@submitBlock asciiPlatform node firstBlock []).1).isOk = true := by decide +kernel
  cases opened : @SQLiteChainStorage.openFresh asciiPlatform testnet with
  | error e =>
      rw [opened] at evaluated
      cases evaluated
  | ok storage =>
      cases created : @LocalNode.new asciiPlatform testnet (some storage) with
      | error e =>
          rw [opened, ok_bind, created] at evaluated
          cases evaluated
      | ok node =>
          rw [opened, ok_bind, created, ok_bind] at evaluated
          have started := @PersistentRun.start asciiPlatform storage node opened created
          cases outcome : @submitBlock asciiPlatform node firstBlock [] with
          | mk result grown =>
              rw [outcome] at evaluated
              cases result with
              | error e => cases evaluated
              | ok update => exact ⟨grown, @PersistentRun.accept asciiPlatform [] _ _ _ _ _ started outcome⟩

omit [Platform] in
theorem restart_equivalent_first :
    ∃ node, @RestartEquivalent asciiPlatform [firstBlock] node := by
  obtain ⟨node, run⟩ := exists_firstPersistent
  exact ⟨node, @PersistentRun.restart_equivalent asciiPlatform [firstBlock] node run⟩

end LocalNode

end OurCoin
