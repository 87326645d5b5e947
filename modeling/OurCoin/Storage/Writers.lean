import OurCoin.Storage.Detection
import OurCoin.Storage.Stale

/-!
# Concurrent writers

Any number of nodes share one database. Each has loaded it at some moment and calls
`persist_chain_update` for updates of its own chain, which may be stale by then. The
transactions of SQLite are the steps (`Writers.Step`), in any order.

The database represents a chain that has accepted blocks one by one, and every entry of a
node's chain is stored (`Writers.Invariant`). Every step keeps this, so the database stays
valid, no block is lost, and a call inserts one block, finds it stored, or raises
(`Writers.Reachable.writers_safe`).
-/

set_option autoImplicit false

namespace OurCoin

open Raising Transactions

variable [Platform]

/-- A database and the chains of the nodes that have loaded it. -/
structure Writers (ι : Type) where
  data : Tables
  chains : ι → Option Chain

namespace Writers

variable {ι : Type}

/-- The chain of a node after a call, as in `submit_block`: the candidate when the call
succeeded. -/
def kept (own supplied : Chain) : Except Raised Bool → Chain
  | .ok _ => supplied
  | .error _ => own

/-- One transaction. -/
inductive Step [DecidableEq ι] : Writers ι → Writers ι → Prop
  | load {system : Writers ι} (node : ι) {storage : SQLiteChainStorage} {chain : Chain} :
      SQLiteChainStorage.openExisting testnet system.data = .ok storage →
      storage.loadChain = .ok chain →
      Step system { system with chains := Function.update system.chains node (some chain) }
  | persist {system : Writers ι} (node : ι) {own supplied : Chain} {update : ChainUpdate}
      (faults : List Fault) {result : Except Raised Bool} {after : SQLiteChainStorage} :
      system.chains node = some own → own.Offers update supplied →
      (SQLiteChainStorage.onTables system.data).persistChainUpdate supplied update faults =
        (result, after) →
      Step system {
        data := after.connection.committed
        chains := Function.update system.chains node (some (kept own supplied result)) }

/-- The states of nodes that share a database, from its creation on. -/
inductive Reachable [DecidableEq ι] : Writers ι → Prop
  | start {storage : SQLiteChainStorage} :
      SQLiteChainStorage.openFresh testnet = .ok storage →
      Reachable ⟨storage.connection.committed, fun _ => none⟩
  | step {system next : Writers ι} : Reachable system → Step system next → Reachable next

/-! ## The invariant -/

/-- The database represents a chain in which every node's chain is contained. -/
structure Invariant (system : Writers ι) (chain : Chain) : Prop where
  exists_run : ∃ accepted, Chain.Run accepted chain
  represents : Represents system.data chain
  own_reachable : ∀ node own, system.chains node = some own → own.Reachable
  grows : ∀ node own, system.chains node = some own → own.Grows chain

namespace Invariant

variable {system : Writers ι} {chain : Chain}

theorem reachable (invariant : Invariant system chain) : chain.Reachable := by
  obtain ⟨accepted, run⟩ := invariant.exists_run
  exact run.reachable

theorem loadChain_eq (invariant : Invariant system chain) :
    (SQLiteChainStorage.onTables system.data).loadChain = .ok chain := by
  obtain ⟨accepted, run⟩ := invariant.exists_run
  exact @Represents.loadChain_eq _ (.onTables system.data) _ invariant.represents _ run rfl rfl rfl

/-- One node has a new chain, and the database may have grown. -/
theorem move [DecidableEq ι] (invariant : Invariant system chain) {data : Tables} {grown : Chain}
    (exists_run : ∃ accepted, Chain.Run accepted grown) (represents : Represents data grown)
    (grows : chain.Grows grown) (node : ι) {own : Chain} (ownReachable : own.Reachable)
    (within : own.Grows grown) :
    Invariant ⟨data, Function.update system.chains node (some own)⟩ grown := by
  have each : ∀ other chain', Function.update system.chains node (some own) other = some chain' →
      chain'.Reachable ∧ chain'.Grows grown := by
    intro other chain' stored
    by_cases same : other = node
    · subst same
      rw [Function.update_self, Option.some.injEq] at stored
      exact stored ▸ ⟨ownReachable, within⟩
    · rw [Function.update_of_ne same] at stored
      exact ⟨invariant.own_reachable other chain' stored,
        (invariant.grows other chain' stored).trans grows⟩
  exact ⟨exists_run, represents, fun other chain' stored => (each other chain' stored).1,
    fun other chain' stored => (each other chain' stored).2⟩

/-- What a node supplies is a chain that it built. -/
theorem supplied_reachable (invariant : Invariant system chain) {node : ι} {own supplied : Chain}
    {update : ChainUpdate} (stored : system.chains node = some own)
    (offers : own.Offers update supplied) : supplied.Reachable := by
  have ownReachable := invariant.own_reachable node own stored
  rcases offers with rfl | ⟨candidate, block, copied, added⟩
  · exact ownReachable
  · rw [Chain.copy_eq ownReachable.refines.network_eq, Except.ok.injEq] at copied
    subst copied
    have after := Chain.Reachable.addBlock block ownReachable
    rwa [added] at after

/-- What a call does to the database. -/
theorem callOutcome (invariant : Invariant system chain) {node : ι} {own supplied : Chain}
    {update : ChainUpdate} (stored : system.chains node = some own)
    (offers : own.Offers update supplied) (faults : List Fault) :
    CallOutcome system.data chain supplied update
      ((SQLiteChainStorage.onTables system.data).persistChainUpdate supplied update faults) :=
  invariant.represents.callOutcome invariant.reachable (invariant.own_reachable node own stored)
    (invariant.grows node own stored) offers faults

/-- **Every step keeps the invariant**, and the stored rows stay first. -/
theorem step [DecidableEq ι] (invariant : Invariant system chain) {next : Writers ι} (step : Step system next) :
    (∃ grown, Invariant next grown) ∧ system.data.blocks <+: next.data.blocks ∧
      system.data.blockTransactions <+: next.data.blockTransactions := by
  cases step with
  | @load node storage loaded opened loads =>
      obtain ⟨accepted, run⟩ := invariant.exists_run
      rw [(LocalNode.reopen_eq run invariant.represents).1, Except.ok.injEq] at opened
      subst opened
      rw [invariant.loadChain_eq, Except.ok.injEq] at loads
      subst loads
      exact ⟨⟨_, invariant.move invariant.exists_run invariant.represents (.refl _) node
        invariant.reachable (.refl _)⟩, List.prefix_rfl, List.prefix_rfl⟩
  | @persist node own supplied update faults result after stored offers called =>
      have suppliedReachable := invariant.supplied_reachable stored offers
      have ownReachable := invariant.own_reachable node own stored
      have outcome := invariant.callOutcome stored offers faults
      rw [called] at outcome
      cases outcome with
      | raised e =>
          exact ⟨⟨chain, invariant.move invariant.exists_run invariant.represents (.refl _) node
            ownReachable (invariant.grows node own stored)⟩, List.prefix_rfl, List.prefix_rfl⟩
      | found matched within =>
          exact ⟨⟨chain, invariant.move invariant.exists_run invariant.represents (.refl _) node
            suppliedReachable within⟩, List.prefix_rfl, List.prefix_rfl⟩
      | @inserted after grown block update' added represents appends known within =>
          obtain ⟨accepted, run⟩ := invariant.exists_run
          have longer := run.accept (congrArg Prod.fst added)
          have grows := (invariant.reachable.refines.addBlock_grows block).1
          rw [added] at longer grows
          obtain ⟨row, -, blocksEq⟩ := appends.exists_row
          obtain ⟨rows, rowsEq⟩ := appends.exists_rows
          exact ⟨⟨grown, invariant.move ⟨_, longer⟩ represents grows node suppliedReachable within⟩,
            ⟨[row], blocksEq.symm⟩, ⟨rows, rowsEq.symm⟩⟩

end Invariant

theorem Reachable.exists_invariant [DecidableEq ι] {system : Writers ι} (reachable : Reachable system) :
    ∃ chain, Invariant system chain := by
  induction reachable with
  | start opened =>
      obtain ⟨data, rfl, represents⟩ := Represents.openFresh opened
      refine ⟨genesisChain, ⟨[], .init Chain.init_testnet⟩, represents, ?_, ?_⟩
      · intro node own stored
        cases stored
      · intro node own stored
        cases stored
  | step _ step ih =>
      obtain ⟨chain, invariant⟩ := ih
      exact (invariant.step step).1

/-! ## Safety -/

/-- The cumulative work of a row. -/
def rowWork (row : BlockRow) : Int := BigEndian.ofBytes row.cumulativeWork

/-- The database loads, and its canonical tip is the earliest-stored block of maximal
cumulative work. -/
structure Valid (data : Tables) : Prop where
  loads : ∃ chain, (SQLiteChainStorage.onTables data).loadChain = .ok chain
  tip_first : ∃ metadata tip, data.chainMetadata = [metadata] ∧
    metadata.canonicalTipHash = tip.blockHash ∧ IsFirstMax rowWork data.blockRows tip

/-- What a call returns and does: it inserts its block once, finds the identical block and
changes nothing, or raises and changes nothing. -/
inductive CallEffect (before : Tables) (supplied : Chain) (update : ChainUpdate) :
    Outcome Raised SQLiteChainStorage Bool → Prop
  | inserted {after : Tables} : before.Appends after update.addedBlockHash →
      after.Matches supplied update.addedBlockHash →
      CallEffect before supplied update (.ok true, .onTables after)
  | found : before.Matches supplied update.addedBlockHash →
      CallEffect before supplied update (.ok false, .onTables before)
  | raised (e : Raised) : CallEffect before supplied update (.error e, .onTables before)

/-- The database of a chain is valid. -/
theorem Invariant.valid {system : Writers ι} {chain : Chain} (invariant : Invariant system chain) :
    Valid system.data := by
  obtain ⟨accepted, run⟩ := invariant.exists_run
  have represents := invariant.represents
  obtain ⟨supply, -, metadata⟩ := represents.holds.exists_metadata
  have weights : chain.entries.items.map (fun item => (item.1, Chain.itemWork item)) =
      system.data.blockRows.map fun row => (row.blockHash, rowWork row) := by
    rw [represents.stores.blockRows_eq]
    apply map_eq_map_of_forall₂ represents.stores.forall₂
    intro item row written
    obtain ⟨hashEq, -, -, workOk, -⟩ := blockValues_eq_ok written
    have work := decodeWork_eq workOk
    simp only [decodeWork, bind_eq_ok, raiseIf_eq_ok, exists_const, pure_eq_ok] at work
    obtain ⟨-, -, same⟩ := work
    rw [← hashEq, rowWork, same, Chain.itemWork]
  obtain ⟨tip, named, first⟩ := run.tip_firstMax.of_map weights
  exact ⟨⟨chain, invariant.loadChain_eq⟩, _, tip, metadata, named.symm, first⟩

/-- What a call of a node does. -/
theorem Invariant.callEffect {system : Writers ι} {chain : Chain}
    (invariant : Invariant system chain) {node : ι} {own supplied : Chain} {update : ChainUpdate}
    (stored : system.chains node = some own) (offers : own.Offers update supplied)
    (faults : List Fault) : CallEffect system.data supplied update
      ((SQLiteChainStorage.onTables system.data).persistChainUpdate supplied update faults) := by
  have outcome := invariant.callOutcome stored offers faults
  generalize (SQLiteChainStorage.onTables system.data).persistChainUpdate supplied update faults =
    result at outcome
  cases outcome with
  | raised e => exact .raised e
  | found matched within => exact .found matched
  | @inserted after grown block update' added represents appends known within =>
      refine .inserted appends ?_
      have refines : grown.Refines := by
        have after := invariant.reachable.refines.addBlock block
        rwa [added] at after
      obtain ⟨entry, supplies⟩ := Chain.contains_eq_true.mp known
      obtain ⟨row, member, decoded⟩ := exists_of_forall₂ (represents.decoded refines)
        (Dict.get?_eq_some.mp (within _ _ supplies))
      refine ⟨row, entry.block, entry.record, ?_, decoded.block_eq, ?_, decoded.record_eq, ?_⟩
      · exact find?_eq_of_nodup represents.consistent.hash_nodup member decoded.hash_eq
      · rw [Chain.getBlock, Chain.entryOf_eq_ok.mpr supplies]
        rfl
      · rw [Chain.getRecord, Chain.entryOf_eq_ok.mpr supplies]
        rfl

/-- What holds of a shared database at every moment. -/
structure Safe [DecidableEq ι] (system : Writers ι) : Prop where
  valid : Valid system.data
  effect : ∀ node own update supplied faults, system.chains node = some own →
    own.Offers update supplied → CallEffect system.data supplied update
      ((SQLiteChainStorage.onTables system.data).persistChainUpdate supplied update faults)
  keeps : ∀ later, Relation.ReflTransGen Step system later →
    system.data.blocks <+: later.data.blocks ∧
      system.data.blockTransactions <+: later.data.blockTransactions

/-- **Concurrent writers keep the database valid**, lose no block, and each call inserts its
block once, finds it stored, or changes nothing. -/
theorem Reachable.writers_safe [DecidableEq ι] {system : Writers ι} (reachable : Reachable system) :
    Safe system := by
  obtain ⟨chain, invariant⟩ := reachable.exists_invariant
  refine ⟨invariant.valid, ?_, ?_⟩
  · intro node own update supplied faults stored offers
    exact invariant.callEffect stored offers faults
  · intro later run
    have general : (∃ grown, Invariant later grown) ∧
        system.data.blocks <+: later.data.blocks ∧
        system.data.blockTransactions <+: later.data.blockTransactions := by
      induction run with
      | refl => exact ⟨⟨chain, invariant⟩, List.prefix_rfl, List.prefix_rfl⟩
      | tail _ step ih =>
          obtain ⟨⟨grown, invariant'⟩, blocks, bodies⟩ := ih
          obtain ⟨further, blocks', bodies'⟩ := invariant'.step step
          exact ⟨further, blocks.trans blocks', bodies.trans bodies'⟩
    exact general.2

omit [Platform] in
/-- Two nodes load a new database, and one of them persists the first block. -/
theorem writers_safe_first : ∃ system : Writers Bool, system.chains true = some firstChain ∧
    system.chains false = some genesisChain ∧ @Safe asciiPlatform Bool _ system := by
  obtain ⟨data, opened, represents⟩ := @exists_openFresh asciiPlatform
  have run := @Chain.Run.init asciiPlatform _ (@Chain.init_testnet asciiPlatform)
  have reachable := @Chain.Run.reachable asciiPlatform _ _ run
  obtain ⟨reopens, -⟩ := @LocalNode.reopen_eq asciiPlatform _ _ _ run represents
  have loads := @Represents.loadChain_eq asciiPlatform (.onTables data) _ represents _ run rfl rfl rfl
  obtain ⟨inserted, data', persisted, -⟩ :=
    @Represents.exists_persist asciiPlatform _ _ represents reachable _ _ _ firstBlock_added
  have offers : @Chain.Offers asciiPlatform genesisChain
      (.active firstHash genesisHash [] [firstHash]) firstChain :=
    .inr ⟨genesisChain, firstBlock, @Chain.copy_eq asciiPlatform _ rfl, firstBlock_added⟩
  have started := @Reachable.start asciiPlatform Bool _ _ opened
  have one := @Reachable.step asciiPlatform Bool _ _ _ started
    (@Step.load asciiPlatform Bool _ _ false _ _ reopens loads)
  have both := @Reachable.step asciiPlatform Bool _ _ _ one
    (@Step.load asciiPlatform Bool _ _ true _ _ reopens loads)
  have last := @Reachable.step asciiPlatform Bool _ _ _ both
    (@Step.persist asciiPlatform Bool _ _ true _ _ _ [] _ _ rfl offers persisted)
  exact ⟨_, rfl, rfl, @Reachable.writers_safe asciiPlatform Bool _ _ last⟩

end Writers

end OurCoin
