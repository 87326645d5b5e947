import OurCoin.Storage.Detection

/-!
# Rebuilding what is derived

What `reindex` does to a database whose blocks can be replayed, whatever the cached work and
supply, the canonical index, the accounts, the confirmed transactions, the tip and the issued
supply were before.

* A call raises and changes nothing, or commits the rebuilt tables and then validates them
  (`reindex_cases`). Without faults it commits (`exists_reindex`).
* The rebuilt tables load when the database has the right identity and no transaction row
  is left over, and a second call finds nothing to change (`Rebuilt.loadChain_eq`,
  `Rebuilt.again`).
* `reindex_repairs`: they are the tables that persisting the same blocks would have written.
* The identity and the references are checked after the commit, so a call can raise and
  leave other tables behind. `reindex_allOrNothing_iff` says on which databases it does not.
-/

set_option autoImplicit false

namespace OurCoin

open Raising Transactions

/-! ## The cached columns -/

/-- A row of `blocks` with the work and the supply that a chain records for its block. -/
def refreshRow (chain : Chain) (row : BlockRow) : Except Raised BlockRow := do
  let blockHash ← exactBlob row.blockHash 32 "block hash"
  let record ← chain.getRecord blockHash
  return { row with
    cumulativeWork := ← encodeWork record.cumulativeWork
    issuedSupplyAtoms := ← encodeU64 record.totalSupplyAtoms }

variable {chain : Chain}

/-- What refreshing a row reads and writes. -/
theorem refreshRow_eq_ok {row row' : BlockRow} :
    refreshRow chain row = .ok row' ↔ row.blockHash.length = 32 ∧
      ∃ record work supply, chain.getRecord row.blockHash = .ok record ∧
        encodeWork record.cumulativeWork = .ok work ∧
        encodeU64 record.totalSupplyAtoms = .ok supply ∧
        row' = { row with cumulativeWork := work, issuedSupplyAtoms := supply } := by
  simp only [refreshRow, bind_eq_ok, exactBlob_eq_ok, pure_eq_ok]
  constructor
  · rintro ⟨hash, ⟨length, rfl⟩, record, recordOk, work, workOk, supply, supplyOk, rfl⟩
    exact ⟨length, record, work, supply, recordOk, workOk, supplyOk, rfl⟩
  · rintro ⟨length, record, work, supply, recordOk, workOk, supplyOk, rfl⟩
    exact ⟨_, ⟨length, rfl⟩, record, recordOk, work, workOk, supply, supplyOk, rfl⟩

/-- Changing the row with a unique key changes one row. -/
theorem map_update_eq {α κ : Type} [DecidableEq κ] {key : α → κ} {change : α → α} {x : α}
    {front back : List α} (nodup : ((front ++ x :: back).map key).Nodup) :
    ((front ++ x :: back).map fun y => if key y = key x then change y else y) =
      front ++ change x :: back := by
  have apart := nodup
  rw [List.map_append, List.map_cons, List.nodup_append, List.nodup_cons] at apart
  obtain ⟨-, ⟨notBehind, -⟩, -⟩ := apart
  have others : ∀ {ys : List α}, key x ∉ ys.map key →
      (ys.map fun y => if key y = key x then change y else y) = ys := by
    intro ys absent
    refine (List.map_congr_left ?_).trans (List.map_id ys)
    intro y member
    rw [if_neg]
    · rfl
    · exact fun same => absent (same ▸ List.mem_map_of_mem member)
  rw [List.map_append, List.map_cons, others (not_mem_of_nodup nodup), others notBehind, if_pos rfl]

/-- The statement that refreshes one of the rows. -/
theorem updateBlockRow_eq {before : Tables} {front back : List BlockRow} {row : BlockRow}
    (split : before.blocks = front ++ row :: back)
    (nodup : (before.blocks.map BlockRow.blockHash).Nodup) {work supply : Bytes}
    (workLength : work.length = 40) (supplyLength : supply.length = 8) :
    Tables.updateBlockRow row.blockHash work supply before = .ok ((), { before with
      blocks := front ++ { row with cumulativeWork := work, issuedSupplyAtoms := supply } ::
        back }) := by
  rw [split] at nodup
  have changed := @map_update_eq _ _ _ BlockRow.blockHash
    (fun row => { row with cumulativeWork := work, issuedSupplyAtoms := supply }) row _ _ nodup
  simp only [Tables.updateBlockRow, bind_eq_ok, raiseIf_eq_ok, exists_const, pure_eq_ok, split,
    changed, and_true]
  exact fun wrong => wrong.2 ⟨workLength, supplyLength⟩

/-- A refreshed row has the same key. -/
theorem nodup_refresh {front back : List BlockRow} {row : BlockRow} {work supply : Bytes}
    (nodup : ((front ++ row :: back).map BlockRow.blockHash).Nodup) :
    ((front ++ { row with cumulativeWork := work, issuedSupplyAtoms := supply } :: back).map
      BlockRow.blockHash).Nodup := by
  simpa using nodup

section Refreshing

variable [Platform]

/-- **The loop over the blocks** refreshes row after row. -/
theorem leads_refreshBlocks : ∀ {rest front : List BlockRow} {before : Tables},
    before.blocks = front ++ rest → (before.blocks.map BlockRow.blockHash).Nodup →
      Leads before (SQLiteChainStorage.refreshBlocks chain rest) fun _ tables =>
        ∃ refreshed, rest.mapM (refreshRow chain) = .ok refreshed ∧
          tables = { before with blocks := front ++ refreshed }
  | [], front, before, split, _ => .pure ⟨[], rfl, by rw [← split]⟩
  | row :: rest, front, before, split, nodup => by
      apply Leads.lift_bind
      intro hash hashOk
      obtain ⟨length, rfl⟩ := exactBlob_eq_ok.mp hashOk
      apply Leads.lift_bind
      intro record recordOk
      apply Leads.lift_bind
      intro work workOk
      apply Leads.lift_bind
      intro supply supplyOk
      apply Leads.execute_bind
      intro _ updated run
      have written := updateBlockRow_eq split nodup (length_encodeWork workOk)
        (length_encodeU64 supplyOk)
      obtain rfl := congrArg Prod.snd (Except.ok.inj (written.symm.trans run))
      have refreshed : refreshRow chain row =
          .ok { row with cumulativeWork := work, issuedSupplyAtoms := supply } :=
        refreshRow_eq_ok.mpr ⟨length, record, work, supply, recordOk, workOk, supplyOk, rfl⟩
      rw [split] at nodup
      apply Within.mono (leads_refreshBlocks (List.append_cons _ _ _) (nodup_refresh nodup))
      rintro _ tables ⟨others, othersOk, rfl⟩
      refine ⟨{ row with cumulativeWork := work, issuedSupplyAtoms := supply } :: others, ?_, ?_⟩
      · rw [List.mapM_cons, refreshed, ok_bind, othersOk]
        rfl
      · simp

/-- The loop over the blocks succeeds when every row can be refreshed. -/
theorem succeeds_refreshBlocks : ∀ {rest front refreshed : List BlockRow} {before : Tables},
    before.blocks = front ++ rest → (before.blocks.map BlockRow.blockHash).Nodup →
    rest.mapM (refreshRow chain) = .ok refreshed →
      Succeeds before (SQLiteChainStorage.refreshBlocks chain rest)
  | [], _, _, _, _, _, _ => .pure ()
  | row :: rest, front, refreshed, before, split, nodup, written => by
      simp only [List.mapM_cons, bind_eq_ok, pure_eq_ok] at written
      obtain ⟨own, ownOk, others, othersOk, rfl⟩ := written
      obtain ⟨length, record, work, supply, recordOk, workOk, supplyOk, rfl⟩ :=
        refreshRow_eq_ok.mp ownOk
      have updated := updateBlockRow_eq split nodup (length_encodeWork workOk)
        (length_encodeU64 supplyOk)
      rw [split] at nodup
      rw [SQLiteChainStorage.refreshBlocks]
      apply Succeeds.lift_bind (exactBlob_eq_ok.mpr ⟨length, rfl⟩)
      apply Succeeds.lift_bind recordOk
      apply Succeeds.lift_bind workOk
      apply Succeeds.lift_bind supplyOk
      apply Succeeds.execute_bind updated
      exact succeeds_refreshBlocks (List.append_cons _ _ _) (nodup_refresh nodup) othersOk

end Refreshing

/-! ## One call -/

variable [Platform]

/-- What a call commits for a chain: the refreshed blocks, and the derived state anew. -/
structure Rebuilt (before tables : Tables) (chain : Chain) : Prop where
  blocks_ok : before.blocks.mapM (refreshRow chain) = .ok tables.blocks
  rederived : Rederived { before with blocks := tables.blocks } tables chain

/-- What a call builds on: SQLite finds no broken row, and the stored blocks replay. -/
structure Replayable (data : Tables) (chain : Chain) : Prop where
  integrity : data.passesIntegrityCheck
  replayed : (SQLiteChainStorage.onTables data).replayBlocks false = .ok chain

variable {data data' : Tables}

theorem closes_reindexBody (nodup : (data.blocks.map BlockRow.blockHash).Nodup) :
    Closing (fun tables => tables = data) (SQLiteChainStorage.reindexBody chain) fun _ tables =>
      Rebuilt data tables chain := by
  rw [SQLiteChainStorage.reindexBody]
  refine @Leads.closing _ _ _ _ data
    (fun rows tables => rows = data.blocks ∧ tables = data) _ _ _ ?_ ?_
  · apply Leads.execute
    rintro _ _ ⟨⟩
    exact ⟨rfl, rfl⟩
  · rintro _ _ ⟨rfl, rfl⟩
    apply Leads.closing (leads_refreshBlocks (List.nil_append _).symm nodup)
    rintro _ _ ⟨refreshed, refreshedOk, rfl⟩
    apply Leads.closing (leads_replaceDerivedState chain _)
    intro _ tables rederived
    apply Closing.commit
    rintro _ rfl
    rw [List.nil_append] at rederived
    have blocksEq := rederived.blocks_eq
    dsimp only at blocksEq
    subst blocksEq
    exact ⟨refreshedOk, rederived⟩

/-- After the checks, a call is its transaction and the validation of what it committed. -/
theorem Replayable.reindex_eq (replayable : Replayable data chain) (faults : List Fault) :
    (SQLiteChainStorage.onTables data).reindex faults =
      match rollingBack SQLiteChainStorage.reindexError
        (do begin operationalError; SQLiteChainStorage.reindexBody chain) ⟨⟨data, none⟩, faults⟩ with
      | (.error e, session) =>
        (.error e, { SQLiteChainStorage.onTables data with connection := session.connection })
      | (.ok (), session) =>
        let after := { SQLiteChainStorage.onTables data with connection := session.connection }
        (after.validate, after) := by
  have isOpen : (SQLiteChainStorage.onTables data).ensureOpen = .ok () := by
    simp [SQLiteChainStorage.ensureOpen, SQLiteChainStorage.onTables]
  have integrity : (SQLiteChainStorage.onTables data).tables.passesIntegrityCheck :=
    replayable.integrity
  have idle : (SQLiteChainStorage.onTables data).connection = ⟨data, none⟩ := rfl
  simp only [SQLiteChainStorage.reindex, isOpen, integrity, replayable.replayed, idle, raiseIf,
    ok_bind, not_true_eq_false, if_false]
  cases rollingBack SQLiteChainStorage.reindexError _ _ with
  | mk result session => cases result <;> rfl

/-- **A call raises and changes nothing, or commits the rebuilt tables and validates them**,
whatever faults its statements meet. -/
theorem reindex_cases (data : Tables) (faults : List Fault) :
    (∃ e, (SQLiteChainStorage.onTables data).reindex faults =
      (.error e, SQLiteChainStorage.onTables data)) ∨
    (∃ chain data', Replayable data chain ∧ Rebuilt data data' chain ∧
      (SQLiteChainStorage.onTables data).reindex faults =
        ((SQLiteChainStorage.onTables data').validate, SQLiteChainStorage.onTables data')) := by
  by_cases passed : ∃ chain, Replayable data chain
  · obtain ⟨chain, replayable⟩ := passed
    have outcomes := @transaction_cases _ _ _ operationalError SQLiteChainStorage.reindexError _ _ _
      (@closes_reindexBody chain _ data replayable.integrity.2.1) ⟨⟨data, none⟩, faults⟩ rfl rfl
    rw [replayable.reindex_eq faults]
    generalize rollingBack SQLiteChainStorage.reindexError _ _ = outcome at outcomes
    obtain ⟨result, session⟩ := outcome
    rcases outcomes with ⟨e, rfl, unchanged⟩ | ⟨_, data', rfl, committed, rebuilt⟩
    · dsimp only at unchanged ⊢
      rw [unchanged]
      exact .inl ⟨e, rfl⟩
    · dsimp only at committed ⊢
      rw [committed]
      exact .inr ⟨chain, data', replayable, rebuilt, rfl⟩
  · left
    unfold SQLiteChainStorage.reindex
    dsimp only
    split
    · exact ⟨_, rfl⟩
    · rename_i chain checked
      simp only [bind_eq_ok, raiseIf_eq_ok, exists_const, not_not] at checked
      obtain ⟨_, -, integrity, replayed⟩ := checked
      exact absurd ⟨chain, integrity, replayed⟩ passed

/-! ## The rebuilt rows -/

omit [Platform] in
/-- Related lists, one after the other. -/
theorem forall₂_trans {α β γ : Type} {R : α → β → Prop} {S : β → γ → Prop} {T : α → γ → Prop}
    {xs : List α} {ys : List β} {zs : List γ} (first : List.Forall₂ R xs ys)
    (second : List.Forall₂ S ys zs) (join : ∀ x ∈ xs, ∀ y z, R x y → S y z → T x z) :
    List.Forall₂ T xs zs := by
  induction first generalizing zs with
  | nil =>
      cases second
      exact .nil
  | cons one rest ih =>
      cases second with
      | cons one' rest' =>
          refine .cons (join _ List.mem_cons_self _ _ one one') (ih rest' ?_)
          intro x member
          exact join x (List.mem_cons_of_mem _ member)

omit [Platform] in
/-- A loop that keeps the order of elements commutes with sorting. -/
theorem mapM_insertionSort {α ε : Type} {f : α → Except ε α} {r : α → α → Prop} [DecidableRel r]
    (keeps : ∀ x x' y y', f x = .ok x' → f y = .ok y' → (r x y ↔ r x' y')) {xs ys : List α}
    (run : xs.mapM f = .ok ys) : (xs.insertionSort r).mapM f = .ok (ys.insertionSort r) := by
  have total : ∀ x ∈ xs, f x = .ok ((f x).toOption.getD x) := by
    intro x member
    obtain ⟨y, found, -⟩ := exists_of_mapM_eq_ok run x member
    rw [found]
    rfl
  have mapped : ys = xs.map fun x => (f x).toOption.getD x := by
    apply eq_map_of_mapM_eq_ok run
    intro x y found
    rw [found]
    rfl
  rw [mapped, ← List.map_insertionSort r r _ xs fun x xMem y yMem =>
    keeps x _ y _ (total x xMem) (total y yMem)]
  apply mapM_eq_map
  intro x member
  exact total x ((List.mem_insertionSort r).mp member)

theorem Replayable.exists_rows (replayable : Replayable data chain) :
    ∃ blocks, Chain.fed blocks = .ok chain ∧
      List.Forall₂ (RawDecoded data) chain.entries.items data.blockRows := by
  obtain ⟨blocks, fed, replayed⟩ := replayRows_eq_ok replayable.replayed
  exact ⟨blocks, fed, replayed.imp fun item row found => found.1⟩

theorem Replayable.refines (replayable : Replayable data chain) : chain.Refines := by
  obtain ⟨blocks, fed, -⟩ := replayable.exists_rows
  exact (Chain.Run.of_fed fed).reachable.refines

/-- The stored blocks are those of the replayed chain. -/
theorem Replayable.hasBlock_iff (replayable : Replayable data chain) {hash : Bytes} :
    data.hasBlock hash ↔ hash ∈ chain.entries.items.map Prod.fst := by
  obtain ⟨blocks, -, rows⟩ := replayable.exists_rows
  have named : chain.entries.items.map Prod.fst = data.blockRows.map BlockRow.blockHash :=
    map_eq_map_of_forall₂ rows fun item row found => found.hash_eq.symm
  rw [named, Tables.blockRows,
    ((List.perm_insertionSort _ data.blocks).map BlockRow.blockHash).mem_iff]
  rfl

/-- **Refreshing a row that was decoded to an entry** makes it the row of the entry. -/
theorem RawDecoded.exists_refreshed (refines : chain.Refines) {item : Bytes × ChainEntry}
    (stored : chain.entries.get? item.1 = some item.2) {row : BlockRow}
    (raw : RawDecoded data item row) :
    ∃ row', refreshRow chain row = .ok row' ∧
      blockValues item.1 item.2.block item.2.record = .ok { row' with acceptanceOrder := 0 } := by
  obtain ⟨values, written, length, -⟩ := refines.exists_blockValues stored
  obtain ⟨hashEq, parentEq, heightOk, workOk, supplyOk, headerOk, rewardOk⟩ :=
    blockValues_eq_ok written
  obtain ⟨-, ownHeader, ownReward, -⟩ := HoldsBlock.of_decodeBlockRow raw.block_eq
  have ownHeight := encodeU64_of_decodeStoredU64 raw.height_eq
  obtain ⟨path, branch, ends⟩ := refines.exists_branch stored
  rw [ends.block_eq, ← ends.height_eq] at ownHeight
  have recordOk : chain.getRecord row.blockHash = .ok item.2.record := by
    rw [raw.hash_eq, Chain.getRecord, Chain.entryOf_eq_ok.mpr stored]
    rfl
  refine ⟨{ row with
    cumulativeWork := values.cumulativeWork, issuedSupplyAtoms := values.issuedSupplyAtoms },
    refreshRow_eq_ok.mpr ⟨?_, item.2.record, _, _, recordOk, workOk, supplyOk, rfl⟩, ?_⟩
  · rw [raw.hash_eq, ← hashEq]
    exact length
  · simp only [blockValues, ownHeight, workOk, supplyOk, ownHeader, ownReward, ok_bind,
      raw.hash_eq, raw.parent_eq]
    rfl

/-- Every stored row can be refreshed. -/
theorem Replayable.exists_refreshed (replayable : Replayable data chain) :
    ∃ rows, data.blocks.mapM (refreshRow chain) = .ok rows := by
  apply exists_mapM_eq_ok
  intro row member
  obtain ⟨blocks, -, rows⟩ := replayable.exists_rows
  rw [← (List.mem_insertionSort fun first second : BlockRow =>
    first.acceptanceOrder ≤ second.acceptanceOrder)] at member
  obtain ⟨item, itemMem, raw⟩ := exists_of_forall₂ rows.flip member
  obtain ⟨row', refreshed, -⟩ :=
    RawDecoded.exists_refreshed replayable.refines (Dict.get?_eq_some.mpr itemMem) raw
  exact ⟨row', refreshed⟩

/-- The statements of a call succeed, whatever the derived tables hold. -/
theorem Replayable.succeeds_reindexBody (replayable : Replayable data chain) :
    Succeeds data (SQLiteChainStorage.reindexBody chain) := by
  have nodup := replayable.integrity.2.1
  have split : data.blocks = [] ++ data.blocks := rfl
  obtain ⟨refreshed, refreshedOk⟩ := replayable.exists_refreshed
  rw [SQLiteChainStorage.reindexBody]
  apply Succeeds.query_bind
  apply Succeeds.bind (succeeds_refreshBlocks split nodup refreshedOk)
    (leads_refreshBlocks split nodup)
  rintro _ _ ⟨rows, rowsOk, rfl⟩
  apply Succeeds.bind _ (leads_replaceDerivedState chain _)
  · intro _ _ _
    exact .commit
  · apply replayable.refines.succeeds_replaceDerivedState
    intro hash entry stored
    have sameHashes : rows.map BlockRow.blockHash = data.blocks.map BlockRow.blockHash := by
      symm
      apply map_eq_map_of_forall₂ (mapM_eq_ok.mp rowsOk)
      intro row row' found
      obtain ⟨-, _, _, _, -, -, -, rfl⟩ := refreshRow_eq_ok.mp found
      rfl
    have held := replayable.hasBlock_iff.mpr (List.mem_map_of_mem (Dict.get?_eq_some.mp stored))
    rw [Tables.hasBlock, ← sameHashes] at held
    exact held

/-- **Without faults a call commits**, and then validates what it committed. -/
theorem Replayable.exists_reindex (replayable : Replayable data chain) :
    ∃ data', Rebuilt data data' chain ∧ (SQLiteChainStorage.onTables data).reindex [] =
      ((SQLiteChainStorage.onTables data').validate, SQLiteChainStorage.onTables data') := by
  have outcomes := @transaction_cases _ _ _ operationalError SQLiteChainStorage.reindexError _ _ _
    (@closes_reindexBody chain _ data replayable.integrity.2.1) ⟨⟨data, none⟩, []⟩ rfl rfl
  obtain ⟨_, returned⟩ := @transaction_succeeds _ _ _ operationalError
    SQLiteChainStorage.reindexError _ ⟨data, none⟩ rfl replayable.succeeds_reindexBody
  rw [replayable.reindex_eq []]
  generalize rollingBack SQLiteChainStorage.reindexError _ _ = outcome at outcomes returned
  obtain ⟨result, session⟩ := outcome
  dsimp only at returned
  subst returned
  rcases outcomes with ⟨e, raised, -⟩ | ⟨_, data', -, committed, rebuilt⟩
  · cases raised
  · dsimp only at committed ⊢
    rw [committed]
    exact ⟨data', rebuilt, rfl⟩

namespace Rebuilt

theorem transactionRows_eq (rebuilt : Rebuilt data data' chain) (hash : Bytes) :
    data'.transactionRows hash = data.transactionRows hash := by
  rw [Tables.transactionRows, rebuilt.rederived.blockTransactions_eq]
  rfl

/-- The order of acceptance and the hashes of the blocks stay as they were. -/
theorem keys_eq (rebuilt : Rebuilt data data' chain) :
    data'.blocks.map BlockRow.acceptanceOrder = data.blocks.map BlockRow.acceptanceOrder ∧
      data'.blocks.map BlockRow.blockHash = data.blocks.map BlockRow.blockHash := by
  have rows := mapM_eq_ok.mp rebuilt.blocks_ok
  constructor
  all_goals
    symm
    apply map_eq_map_of_forall₂ rows
    intro row row' found
    obtain ⟨-, _, _, _, -, -, -, rfl⟩ := refreshRow_eq_ok.mp found
    rfl

theorem hasBlock_iff (rebuilt : Rebuilt data data' chain) {hash : Bytes} :
    data'.hasBlock hash ↔ data.hasBlock hash := by
  rw [Tables.hasBlock, rebuilt.keys_eq.2]
  rfl

/-- The rows in the order of acceptance are refreshed in this order. -/
theorem blockRows_ok (rebuilt : Rebuilt data data' chain) :
    data.blockRows.mapM (refreshRow chain) = .ok data'.blockRows := by
  apply mapM_insertionSort _ rebuilt.blocks_ok
  intro first first' second second' found found'
  obtain ⟨-, _, _, _, -, -, -, rfl⟩ := refreshRow_eq_ok.mp found
  obtain ⟨-, _, _, _, -, -, -, rfl⟩ := refreshRow_eq_ok.mp found'
  exact Iff.rfl

/-- **The rebuilt rows are decoded to the entries of the chain**, with their records. -/
theorem decoded (rebuilt : Rebuilt data data' chain) (replayable : Replayable data chain) :
    List.Forall₂ (Decoded data') chain.entries.items data'.blockRows := by
  obtain ⟨blocks, -, rows⟩ := replayable.exists_rows
  apply forall₂_trans rows (mapM_eq_ok.mp rebuilt.blockRows_ok)
  intro item member row row' raw found
  have stored := Dict.get?_eq_some.mpr member
  obtain ⟨row'', refreshed, written⟩ := raw.exists_refreshed replayable.refines stored
  obtain rfl := Except.ok.inj (refreshed.symm.trans found)
  apply Decoded.of_written replayable.refines stored written
  rw [rebuilt.transactionRows_eq, ← raw.hash_eq]
  exact (HoldsBlock.of_decodeBlockRow raw.block_eq).body_ok

end Rebuilt

/-! ## The rebuilt tables load -/

/-- A chain determines its derived tables. -/
theorem Derives.tables_eq (derives : Derives data chain) (derives' : Derives data' chain) :
    data.canonicalChain = data'.canonicalChain ∧
      data.confirmedTransactions = data'.confirmedTransactions ∧ data.accounts = data'.accounts := by
  obtain ⟨blocks, state, confirmed, blocksOk, stateOk, canonicalOk, confirmedOk, flat, accountsOk⟩ :=
    derives.exists_rows
  obtain ⟨blocks', state', confirmed', blocksOk', stateOk', canonicalOk', confirmedOk', flat',
    accountsOk'⟩ := derives'.exists_rows
  obtain rfl : blocks = blocks' := Except.ok.inj (blocksOk.symm.trans blocksOk')
  obtain rfl : state = state' := Except.ok.inj (stateOk.symm.trans stateOk')
  obtain rfl : confirmed = confirmed' := Except.ok.inj (confirmedOk.symm.trans confirmedOk')
  exact ⟨Except.ok.inj (canonicalOk.symm.trans canonicalOk'), flat.trans flat'.symm,
    Except.ok.inj (accountsOk.symm.trans accountsOk')⟩

/-- No transaction row is left over: each one belongs to a stored block. -/
def Tables.NoOrphans (tables : Tables) : Prop :=
  ∀ row ∈ tables.blockTransactions, tables.hasBlock row.blockHash

/-- The single metadata row names the schema, the network and the genesis block. -/
def Tables.HasIdentity (tables : Tables) : Prop :=
  tables.chainMetadata.map (fun row => (row.schemaVersion, row.chainId, row.genesisHash)) =
    [(schemaVersion, testnet.chainId, genesisHash)]

namespace Rebuilt

/-- The derived tables are those of a database into which the same blocks were persisted, so
they satisfy the constraints. -/
theorem exists_written (rebuilt : Rebuilt data data' chain) (replayable : Replayable data chain) :
    ∃ written : Tables, written.Consistent ∧
      (∀ hash, written.hasBlock hash ↔ data'.hasBlock hash) ∧
      data'.canonicalChain = written.canonicalChain ∧
      data'.confirmedTransactions = written.confirmedTransactions ∧
      data'.accounts = written.accounts := by
  obtain ⟨blocks, fed, -⟩ := replayable.exists_rows
  obtain ⟨written, -, represents⟩ := exists_writeBlocks fed
  refine ⟨written, represents.consistent, ?_, rebuilt.rederived.derives.tables_eq represents.derives⟩
  intro hash
  rw [rebuilt.hasBlock_iff, replayable.hasBlock_iff, represents.stores.hashes_eq]
  rfl

theorem passesIntegrityCheck (rebuilt : Rebuilt data data' chain)
    (replayable : Replayable data chain) : data'.passesIntegrityCheck := by
  obtain ⟨written, consistent, -, canonicalEq, confirmedEq, accountsEq⟩ :=
    rebuilt.exists_written replayable
  obtain ⟨orders, hashes, checked, positions, bodies, -, -, -, -, -, -, -, metadataOne, identity⟩ :=
    replayable.integrity
  obtain ⟨ordersEq, hashesEq⟩ := rebuilt.keys_eq
  obtain ⟨supply, supplyOk, metadataEq⟩ := rebuilt.rederived.exists_supply
  dsimp only at metadataEq
  refine ⟨ordersEq ▸ orders, hashesEq ▸ hashes, ?_, ?_, ?_, canonicalEq ▸ consistent.height_nodup,
    canonicalEq ▸ consistent.canonical_nodup, canonicalEq ▸ consistent.canonical_checked,
    accountsEq ▸ consistent.address_nodup, accountsEq ▸ consistent.accounts_checked,
    confirmedEq ▸ consistent.confirmed_nodup, confirmedEq ▸ consistent.confirmed_checked, ?_, ?_⟩
  · intro row' member
    obtain ⟨row, rowMem, found⟩ := (mem_of_mapM_eq_ok rebuilt.blocks_ok).mp member
    obtain ⟨length, _, work, supply, -, workOk, supplyOk, rfl⟩ := refreshRow_eq_ok.mp found
    exact ⟨length, (checked row rowMem).2.1, length_encodeWork workOk, length_encodeU64 supplyOk⟩
  · rw [rebuilt.rederived.blockTransactions_eq]
    exact positions
  · rw [rebuilt.rederived.blockTransactions_eq]
    exact bodies
  · rw [metadataEq, List.length_map]
    exact metadataOne
  · rw [metadataEq]
    intro row' member
    obtain ⟨row, rowMem, rfl⟩ := List.mem_map.mp member
    exact ⟨(identity row rowMem).1, length_encodeU64 supplyOk⟩

theorem passesForeignKeyCheck (rebuilt : Rebuilt data data' chain)
    (replayable : Replayable data chain) (noOrphans : data.NoOrphans) :
    data'.passesForeignKeyCheck := by
  obtain ⟨written, consistent, sameBlocks, canonicalEq, confirmedEq, -⟩ :=
    rebuilt.exists_written replayable
  have stored : ∀ {hash : Bytes} {entry : ChainEntry}, chain.entries.get? hash = some entry →
      data'.hasBlock hash := by
    intro hash entry found
    rw [rebuilt.hasBlock_iff, replayable.hasBlock_iff]
    exact List.mem_map_of_mem (Dict.get?_eq_some.mp found)
  refine ⟨?_, ?_, ?_, ?_, ?_⟩
  · intro row member parent named
    rw [← (List.mem_insertionSort fun first second : BlockRow =>
      first.acceptanceOrder ≤ second.acceptanceOrder)] at member
    obtain ⟨item, itemMem, isDecoded⟩ := exists_of_forall₂ (rebuilt.decoded replayable).flip member
    rw [isDecoded.parent_eq] at named
    obtain ⟨_, _, _, ends⟩ :=
      replayable.refines.exists_parentBranch (Dict.get?_eq_some.mpr itemMem) named
    exact stored ends.stored
  · rw [rebuilt.rederived.blockTransactions_eq]
    intro row member
    exact rebuilt.hasBlock_iff.mpr (noOrphans row member)
  · rw [canonicalEq]
    intro row member
    exact (sameBlocks _).mp (consistent.canonical_stored row member)
  · rw [confirmedEq]
    intro row member
    exact (sameBlocks _).mp (consistent.confirmed_stored row member)
  · intro row member
    rw [(rebuilt.rederived.derives.exists_metadata row member).1]
    exact stored chain.tipEntry_stored

/-- **The rebuilt tables load.** -/
theorem loadChain_eq (rebuilt : Rebuilt data data' chain) (replayable : Replayable data chain)
    (identity : data.HasIdentity) (noOrphans : data.NoOrphans) :
    (SQLiteChainStorage.onTables data').loadChain = .ok chain := by
  obtain ⟨blocks, fed, -⟩ := replayable.exists_rows
  have derives : Derives (SQLiteChainStorage.onTables data').tables chain :=
    rebuilt.rederived.derives
  exact derives.loadChain_eq (.of_fed fed) rfl rfl rfl (rebuilt.passesIntegrityCheck replayable)
    (rebuilt.passesForeignKeyCheck replayable noOrphans)
    (rebuilt.rederived.identity_eq.trans identity) (rebuilt.decoded replayable)

/-- Tables that load have the right identity and no transaction row that is left over, and so
had the tables before. -/
theorem of_loadChain (rebuilt : Rebuilt data data' chain) {loaded : Chain}
    (succeeded : (SQLiteChainStorage.onTables data').loadChain = .ok loaded) :
    data.HasIdentity ∧ data.NoOrphans := by
  obtain ⟨⟨row, metadata, version, chainId, genesis⟩, -, keys, -⟩ := loadChain_eq_ok succeeded
  constructor
  · have same := rebuilt.rederived.identity_eq
    dsimp only at same
    rw [Tables.HasIdentity, ← same, metadata, List.map_singleton, version, chainId, genesis]
  · intro row member
    rw [← rebuilt.hasBlock_iff]
    apply keys.2.1 row
    rw [rebuilt.rederived.blockTransactions_eq]
    exact member

/-- **The rebuilt tables are valid.** -/
theorem validate_eq (rebuilt : Rebuilt data data' chain) (replayable : Replayable data chain)
    (identity : data.HasIdentity) (noOrphans : data.NoOrphans) :
    (SQLiteChainStorage.onTables data').validate =
      .ok ⟨data'.blocks.length, data'.accounts.length, chain.height, chain.activeTipHash⟩ := by
  have isOpen : (SQLiteChainStorage.onTables data').ensureOpen = .ok () := by
    simp [SQLiteChainStorage.ensureOpen, SQLiteChainStorage.onTables]
  have tablesEq : (SQLiteChainStorage.onTables data').tables = data' := rfl
  obtain ⟨row, metadata⟩ := List.length_eq_one_iff.mp ((List.length_map _).symm.trans
    (congrArg List.length (rebuilt.rederived.identity_eq.trans identity)))
  obtain ⟨tipEq, supplyOk⟩ :=
    rebuilt.rederived.derives.exists_metadata row (by rw [metadata]; simp)
  -- The row of the tip, and its record.
  obtain ⟨tipRow, tipMem, isDecoded⟩ := exists_of_forall₂ (rebuilt.decoded replayable)
    (Dict.get?_eq_some.mp chain.tipEntry_stored)
  obtain ⟨path, branch, ends⟩ := replayable.refines.exists_branch chain.tipEntry_stored
  have tipLength := BlockHeader.length_blockHash ends.hash_ok
  have found : data'.blockRow? chain.activeTipHash = some tipRow :=
    find?_eq_of_nodup (rebuilt.passesIntegrityCheck replayable).2.1
      ((List.mem_insertionSort _).mp tipMem) isDecoded.hash_eq
  have whole : ∀ fieldName, exactBlob chain.activeTipHash 32 fieldName = .ok chain.activeTipHash :=
    fun fieldName => exactBlob_eq_ok.mpr ⟨tipLength, rfl⟩
  have record := isDecoded.record_eq
  simp only [SQLiteChainStorage.validate, SQLiteChainStorage.info, SQLiteChainStorage.getTipRecord,
    SQLiteChainStorage.blockRow, rebuilt.loadChain_eq replayable identity noOrphans, isOpen, tablesEq,
    metadata, onlyMetadataRow, tipEq, whole, found, record, decodeStoredU64_eq supplyOk, ok_bind]
  rfl

/-- The rebuilt tables replay to the same chain. -/
theorem replayable (rebuilt : Rebuilt data data' chain) (replayable : Replayable data chain) :
    Replayable data' chain := by
  obtain ⟨blocks, fed, -⟩ := replayable.exists_rows
  have rows : List.Forall₂ (Decoded (SQLiteChainStorage.onTables data').tables) chain.entries.items
      data'.blockRows := rebuilt.decoded replayable
  exact ⟨rebuilt.passesIntegrityCheck replayable, replayRows_eq (.of_fed fed) rfl rfl false rows⟩

end Rebuilt

/-- A row with the values of its entry is refreshed to itself. -/
theorem Decoded.refreshRow_eq {item : Bytes × ChainEntry}
    (stored : chain.entries.get? item.1 = some item.2) {row : BlockRow}
    (isDecoded : Decoded data item row) : refreshRow chain row = .ok row := by
  obtain ⟨-, -, -, workOk, supplyOk, -⟩ := blockValues_eq_ok isDecoded.blockValues_eq
  have recordOk : chain.getRecord row.blockHash = .ok item.2.record := by
    rw [isDecoded.hash_eq, Chain.getRecord, Chain.entryOf_eq_ok.mpr stored]
    rfl
  have length := BlockHeader.length_blockHash isDecoded.hash_ok
  rw [← isDecoded.hash_eq] at length
  exact refreshRow_eq_ok.mpr ⟨length, item.2.record, _, _, recordOk, workOk, supplyOk, rfl⟩

/-- Rows that are refreshed to themselves are the refreshed rows. -/
theorem Rebuilt.blocks_eq (rebuilt : Rebuilt data data' chain)
    (settled : ∀ row ∈ data.blocks, refreshRow chain row = .ok row) : data'.blocks = data.blocks := by
  have same := mapM_eq_map settled
  rw [List.map_id'] at same
  exact Except.ok.inj (rebuilt.blocks_ok.symm.trans same)

/-- Metadata that names the tip and the supply of the chain is not changed. -/
theorem Rebuilt.chainMetadata_eq (rebuilt : Rebuilt data data' chain)
    (settled : ∀ row ∈ data.chainMetadata, row.canonicalTipHash = chain.activeTipHash ∧
      encodeU64 chain.totalSupplyAtoms = .ok row.issuedSupplyAtoms) :
    data'.chainMetadata = data.chainMetadata := by
  obtain ⟨supply, supplyOk, metadataEq⟩ := rebuilt.rederived.exists_supply
  rw [metadataEq]
  refine (List.map_congr_left ?_).trans (List.map_id data.chainMetadata)
  intro row member
  obtain ⟨tipEq, ownSupply⟩ := settled row member
  rw [← tipEq, Except.ok.inj (supplyOk.symm.trans ownSupply)]
  rfl

/-- **A second call finds nothing to change.** -/
theorem Rebuilt.again {final : Tables} (rebuilt : Rebuilt data data' chain)
    (replayable : Replayable data chain) (rebuilt' : Rebuilt data' final chain) : final = data' := by
  have rows := rebuilt.decoded replayable
  have blocksEq : final.blocks = data'.blocks := by
    apply rebuilt'.blocks_eq
    intro row member
    rw [← (List.mem_insertionSort fun first second : BlockRow =>
      first.acceptanceOrder ≤ second.acceptanceOrder)] at member
    obtain ⟨item, itemMem, isDecoded⟩ := exists_of_forall₂ rows.flip member
    exact Decoded.refreshRow_eq (Dict.get?_eq_some.mpr itemMem) isDecoded
  have metadataEq := rebuilt'.chainMetadata_eq rebuilt.rederived.derives.exists_metadata
  have sequenceEq := rebuilt'.rederived.sequence_eq
  have bodiesEq := rebuilt'.rederived.blockTransactions_eq
  obtain ⟨canonicalEq, confirmedEq, accountsEq⟩ :=
    rebuilt'.rederived.derives.tables_eq rebuilt.rederived.derives
  cases final
  cases data'
  simp only [Tables.mk.injEq] at *
  exact ⟨sequenceEq, blocksEq, bodiesEq, canonicalEq, accountsEq, confirmedEq, metadataEq⟩

/-! ## Repairing -/

/-- **Reindexing repairs whatever is derived**: on a database that replays, with the right
identity and no transaction row left over, a call succeeds, keeps the order of acceptance,
and leaves what persisting the same blocks in this order would have written. The database
then loads, and a second call changes nothing. -/
theorem reindex_repairs (integrity : data.passesIntegrityCheck)
    (replayed : (SQLiteChainStorage.onTables data).replayBlocks false = .ok chain)
    (identity : data.HasIdentity) (noOrphans : data.NoOrphans) :
    ∃ report data' blocks written,
      (SQLiteChainStorage.onTables data).reindex [] =
        (.ok report, SQLiteChainStorage.onTables data') ∧
      data.blockRows.mapM (decodeBlockRow data) = .ok (testnetGenesis :: blocks) ∧
      writeBlocks blocks = .ok (chain, SQLiteChainStorage.onTables written) ∧
      data'.SameContents written ∧
      data'.blocks.map BlockRow.acceptanceOrder = data.blocks.map BlockRow.acceptanceOrder ∧
      (SQLiteChainStorage.onTables data').loadChain = .ok chain ∧
      (SQLiteChainStorage.onTables data').reindex [] =
        (.ok report, SQLiteChainStorage.onTables data') := by
  have replayable : Replayable data chain := ⟨integrity, replayed⟩
  obtain ⟨data', rebuilt, outcome⟩ := replayable.exists_reindex
  have loads := rebuilt.loadChain_eq replayable identity noOrphans
  have valid := rebuilt.validate_eq replayable identity noOrphans
  obtain ⟨final, rebuilt', outcome'⟩ := (rebuilt.replayable replayable).exists_reindex
  obtain rfl := rebuilt.again replayable rebuilt'
  obtain ⟨blocks, fed, rows⟩ := replayable.exists_rows
  obtain ⟨written, writtenOk, represents⟩ := exists_writeBlocks fed
  obtain ⟨genesis, defined, stored⟩ := (Chain.Run.of_fed fed).blocks_eq
  rw [genesisBlock_testnet, Except.ok.injEq] at defined
  subst defined
  refine ⟨_, final, blocks, written, outcome.trans (by rw [valid]), ?_, writtenOk,
    (Holds.of_loadChain loads).1.sameContents represents.holds, rebuilt.keys_eq.1, loads,
    outcome'.trans (by rw [valid])⟩
  rw [← stored, mapM_eq_ok, List.forall₂_map_right_iff]
  exact rows.flip.imp fun row item raw => raw.block_eq

/-- A database keeps replaying when only derived tables are damaged, or transaction rows of
other blocks. -/
theorem Represents.replayable {accepted : List Block} {damaged : Tables}
    (represents : Represents data chain) (run : Chain.Run accepted chain)
    (blocks_eq : damaged.blocks = data.blocks)
    (bodies_eq : ∀ row ∈ data.blocks,
      damaged.transactionRows row.blockHash = data.transactionRows row.blockHash)
    (integrity : damaged.passesIntegrityCheck) : Replayable damaged chain := by
  have rows : List.Forall₂ (Decoded (SQLiteChainStorage.onTables damaged).tables)
      chain.entries.items data.blocks := by
    have members : List.Forall₂ (fun row row' => row = row' ∧ row ∈ data.blocks) data.blocks
        data.blocks := List.forall₂_same.mpr fun row member => ⟨rfl, member⟩
    apply forall₂_trans (represents.decoded run.reachable.refines) members
    rintro item - row _ isDecoded ⟨rfl, member⟩
    refine { isDecoded with block_eq := ?_ }
    change (decodeHeads row >>= fun heads =>
      decodeBody row heads (damaged.transactionRows row.blockHash)) = .ok item.2.block
    rw [bodies_eq row member]
    exact isDecoded.block_eq
  refine ⟨integrity, replayRows_eq run rfl rfl false ?_⟩
  change List.Forall₂ _ _ damaged.blockRows
  have sorted := represents.stores.blockRows_eq
  rw [Tables.blockRows] at sorted ⊢
  rw [blocks_eq, sorted]
  exact rows

/-- The tables without the canonical index, the accounts and the confirmed transactions. -/
def Tables.withoutDerived (tables : Tables) : Tables :=
  { tables with canonicalChain := [], accounts := [], confirmedTransactions := [] }

omit [Platform] in
theorem Tables.Consistent.withoutDerived (consistent : data.Consistent) :
    data.withoutDerived.passesIntegrityCheck := by
  obtain ⟨⟨orders, hashes, checked, positions, bodies, -, -, -, -, -, -, -, metadata⟩, -⟩ :=
    consistent.passes
  refine ⟨orders, hashes, checked, positions, bodies, ?_, ?_, ?_, ?_, ?_, ?_, ?_, metadata⟩
  all_goals simp [Tables.withoutDerived]

omit [Platform] in
/-- A database with the first block is repaired when its derived tables were emptied. -/
theorem reindex_repairs_first : ∃ data : Tables,
    @writeBlocks asciiPlatform [firstBlock] = .ok (firstChain, .onTables data) ∧
    ∃ report data' blocks written,
      (@SQLiteChainStorage.reindex asciiPlatform (.onTables data.withoutDerived) []) =
        (.ok report, .onTables data') ∧
      (data.withoutDerived.blockRows.mapM (@decodeBlockRow asciiPlatform data.withoutDerived)) =
        .ok (testnetGenesis :: blocks) ∧
      @writeBlocks asciiPlatform blocks = .ok (firstChain, .onTables written) ∧
      data'.SameContents written ∧
      data'.blocks.map BlockRow.acceptanceOrder =
        data.withoutDerived.blocks.map BlockRow.acceptanceOrder ∧
      (@SQLiteChainStorage.loadChain asciiPlatform (.onTables data')) = .ok firstChain ∧
      (@SQLiteChainStorage.reindex asciiPlatform (.onTables data') []) =
        (.ok report, .onTables data') := by
  obtain ⟨data, written, represents⟩ := @exists_writeBlocks asciiPlatform _ _ firstChain_fed
  have consistent := @Represents.consistent asciiPlatform _ _ represents
  have replayable : @Replayable asciiPlatform data.withoutDerived firstChain :=
    @Represents.replayable firstChain asciiPlatform data _ _ represents
      (@Chain.Run.of_fed asciiPlatform _ _ firstChain_fed) rfl (fun _ _ => rfl) consistent.withoutDerived
  have identity : data.withoutDerived.HasIdentity :=
    @Represents.identity asciiPlatform data firstChain represents
  exact ⟨data, written, @reindex_repairs firstChain asciiPlatform data.withoutDerived
    consistent.withoutDerived (@Replayable.replayed asciiPlatform _ _ replayable) identity
    consistent.bodies_stored⟩

/-! ## All or nothing -/

/-- Every table has the same rows. -/
structure Tables.SameRows (first second : Tables) : Prop where
  sequence_eq : first.sequence = second.sequence
  blocks : first.blocks.Perm second.blocks
  blockTransactions : first.blockTransactions.Perm second.blockTransactions
  canonicalChain : first.canonicalChain.Perm second.canonicalChain
  accounts : first.accounts.Perm second.accounts
  confirmedTransactions : first.confirmedTransactions.Perm second.confirmedTransactions
  chainMetadata : first.chainMetadata.Perm second.chainMetadata

omit [Platform] in
theorem Tables.SameRows.refl (tables : Tables) : tables.SameRows tables :=
  ⟨rfl, .refl _, .refl _, .refl _, .refl _, .refl _, .refl _⟩

/-- Whatever faults occur, a call that raises leaves every table as it was. -/
def AllOrNothing (data : Tables) : Prop :=
  ∀ faults e after, (SQLiteChainStorage.onTables data).reindex faults = (.error e, after) →
    after.tables.SameRows data

/-- What is derived is what the chain derives already, in any order of the rows. -/
structure Indexed (data : Tables) (chain : Chain) : Prop where
  blocks : ∀ row ∈ data.blocks, refreshRow chain row = .ok row
  exists_derived : ∃ blocks state canonical confirmed accounts, chain.activeChain = .ok blocks ∧
    chain.state = .ok state ∧ blocks.mapM canonicalValues = .ok canonical ∧
    confirmedRows blocks = .ok confirmed ∧
    state.snapshot.accounts.mapM accountValues = .ok accounts ∧
    data.canonicalChain.Perm canonical ∧ data.confirmedTransactions.Perm confirmed.flatten ∧
    data.accounts.Perm accounts
  metadata : ∀ row ∈ data.chainMetadata, row.canonicalTipHash = chain.activeTipHash ∧
    encodeU64 chain.totalSupplyAtoms = .ok row.issuedSupplyAtoms

/-- **Rebuilding changes no row** exactly when everything derived was right already. -/
theorem Rebuilt.sameRows_iff (rebuilt : Rebuilt data data' chain)
    (replayable : Replayable data chain) : data'.SameRows data ↔ Indexed data chain := by
  obtain ⟨blocks, state, confirmed, blocksOk, stateOk, canonicalOk, confirmedOk, flat, accountsOk⟩ :=
    rebuilt.rederived.derives.exists_rows
  constructor
  · intro same
    refine ⟨?_, ⟨blocks, state, _, confirmed, _, blocksOk, stateOk, canonicalOk, confirmedOk,
      accountsOk, same.canonicalChain.symm, flat ▸ same.confirmedTransactions.symm,
      same.accounts.symm⟩, ?_⟩
    · intro row member
      obtain ⟨row', found, member'⟩ := exists_of_mapM_eq_ok rebuilt.blocks_ok row member
      obtain ⟨-, _, work, supply, -, -, -, shape⟩ := refreshRow_eq_ok.mp found
      -- The hashes are distinct, so the refreshed row is the row with its hash.
      have sameHash : row'.blockHash = row.blockHash := by rw [shape]
      have sameRow := List.inj_on_of_nodup_map replayable.integrity.2.1
        (same.blocks.mem_iff.mp member') member sameHash
      rwa [sameRow] at found
    · intro row member
      exact rebuilt.rederived.derives.exists_metadata row (same.chainMetadata.mem_iff.mpr member)
  · intro indexed
    obtain ⟨blocks', state', canonical, confirmed', accounts, blocksOk', stateOk', canonicalOk',
      confirmedOk', accountsOk', canonicalEq, confirmedEq, accountsEq⟩ := indexed.exists_derived
    obtain rfl : blocks = blocks' := Except.ok.inj (blocksOk.symm.trans blocksOk')
    obtain rfl : state = state' := Except.ok.inj (stateOk.symm.trans stateOk')
    obtain rfl : confirmed = confirmed' := Except.ok.inj (confirmedOk.symm.trans confirmedOk')
    rw [← Except.ok.inj (canonicalOk.symm.trans canonicalOk')] at canonicalEq
    rw [← Except.ok.inj (accountsOk.symm.trans accountsOk')] at accountsEq
    exact {
      sequence_eq := rebuilt.rederived.sequence_eq
      blocks := .of_eq (rebuilt.blocks_eq indexed.blocks)
      blockTransactions := .of_eq rebuilt.rederived.blockTransactions_eq
      canonicalChain := canonicalEq.symm
      accounts := accountsEq.symm
      confirmedTransactions := flat ▸ confirmedEq.symm
      chainMetadata := .of_eq (rebuilt.chainMetadata_eq indexed.metadata) }

/-- On a database that replays, a call is all or nothing exactly when the validation after the
commit passes, or the commit changed nothing. -/
theorem Replayable.allOrNothing_iff (replayable : Replayable data chain) :
    AllOrNothing data ↔ (data.HasIdentity ∧ data.NoOrphans) ∨ Indexed data chain := by
  constructor
  · intro allOrNothing
    by_cases passes : data.HasIdentity ∧ data.NoOrphans
    · exact .inl passes
    · right
      obtain ⟨data', rebuilt, outcome⟩ := replayable.exists_reindex
      cases validated : (SQLiteChainStorage.onTables data').validate with
      | ok report =>
          simp only [SQLiteChainStorage.validate, bind_eq_ok] at validated
          obtain ⟨loaded, succeeded, -⟩ := validated
          exact absurd (rebuilt.of_loadChain succeeded) passes
      | error e =>
          rw [validated] at outcome
          exact (rebuilt.sameRows_iff replayable).mp (allOrNothing [] e _ outcome)
  · intro condition faults e after raised
    rcases reindex_cases data faults with ⟨e', outcome⟩ | ⟨chain', data', replayable', rebuilt, outcome⟩
    · rw [raised] at outcome
      cases outcome
      exact .refl data
    · obtain rfl : chain = chain' :=
        Except.ok.inj (replayable.replayed.symm.trans replayable'.replayed)
      rw [raised] at outcome
      rcases condition with ⟨identity, noOrphans⟩ | indexed
      · rw [rebuilt.validate_eq replayable identity noOrphans] at outcome
        cases outcome
      · cases congrArg Prod.snd outcome
        exact (rebuilt.sameRows_iff replayable).mpr indexed

/-- **When reindexing is all or nothing**: on a database on which SQLite's own check passes
and whose blocks replay, exactly when it has the right identity and no transaction row is
left over, or when nothing derived was wrong. The identity and the references are checked
after the commit only. -/
theorem reindex_allOrNothing_iff (data : Tables) :
    AllOrNothing data ↔ ∀ chain, data.passesIntegrityCheck →
      (SQLiteChainStorage.onTables data).replayBlocks false = .ok chain →
      (data.HasIdentity ∧ data.NoOrphans) ∨ Indexed data chain := by
  constructor
  · intro allOrNothing chain integrity replayed
    exact Replayable.allOrNothing_iff ⟨integrity, replayed⟩ |>.mp allOrNothing
  · intro condition faults e after raised
    rcases reindex_cases data faults with ⟨e', outcome⟩ | ⟨chain, data', replayable, rebuilt, outcome⟩
    · rw [raised] at outcome
      cases outcome
      exact .refl data
    · exact replayable.allOrNothing_iff.mpr
        (condition chain replayable.integrity replayable.replayed) faults e after raised

/-- A transaction row of a block that is not stored. -/
def orphanRow : TransactionRow := ⟨List.replicate 32 0, 0, List.replicate 32 0, []⟩

/-- The tables after another tool has deleted the derived rows and left a transaction row
without its block. -/
def Tables.orphaned (tables : Tables) : Tables :=
  { tables.withoutDerived with blockTransactions := tables.blockTransactions ++ [orphanRow] }

/-- A database that represents a chain still replays after that. -/
theorem Represents.replayable_orphaned {accepted : List Block} (represents : Represents data chain)
    (run : Chain.Run accepted chain) (absent : ¬ data.hasBlock orphanRow.blockHash) :
    Replayable data.orphaned chain := by
  have consistent := represents.consistent
  have sameBlocks : data.orphaned.blocks = data.blocks := rfl
  refine represents.replayable run sameBlocks ?_ ?_
  · intro row member
    have others : orphanRow.blockHash ≠ row.blockHash := by
      intro same
      exact absent (same ▸ List.mem_map_of_mem member)
    simp [Tables.transactionRows, Tables.orphaned, others]
  · obtain ⟨orders, hashes, checked, positions, bodies, derived⟩ := consistent.withoutDerived
    refine ⟨orders, hashes, checked, ?_, ?_, derived⟩
    · apply Tables.nodup_map_concat positions
      intro member
      obtain ⟨row, rowMem, same⟩ := List.mem_map.mp member
      rw [Prod.mk.injEq] at same
      exact absent (same.1 ▸ consistent.bodies_stored row rowMem)
    · exact Tables.forall_mem_concat bodies (by decide)

/-- The active chain starts with the genesis block, so its canonical index is not empty. -/
theorem Chain.Refines.not_indexed (refines : chain.Refines) (missing : data.canonicalChain = []) :
    ¬ Indexed data chain := by
  intro indexed
  obtain ⟨blocks, _, canonical, _, _, blocksOk, -, canonicalOk, -, -, empty, -⟩ :=
    indexed.exists_derived
  obtain ⟨path, branch, ends⟩ := refines.exists_branch chain.tipEntry_stored
  rw [Chain.Reachable.activeChain_eq ends] at blocksOk
  cases blocksOk
  obtain ⟨front, rfl⟩ := ends.exists_last
  rw [missing] at empty
  obtain rfl := List.nil_perm.mp empty
  have lengths := (mapM_eq_ok.mp canonicalOk).length_eq
  simp [pathBlocks] at lengths

omit [Platform] in
/-- Reindexing is not all or nothing: a new database that another tool has damaged opens, but
a call rebuilds its canonical index and then raises. -/
theorem not_allOrNothing : ∃ data : Tables,
    @SQLiteChainStorage.openFresh asciiPlatform testnet = .ok (.onTables data) ∧
    @SQLiteChainStorage.openExisting asciiPlatform testnet data.orphaned =
      .ok (.onTables data.orphaned) ∧ ¬ @AllOrNothing asciiPlatform data.orphaned := by
  obtain ⟨data, opened, represents⟩ := @exists_openFresh asciiPlatform
  have started := @Chain.init_testnet asciiPlatform
  have run := @Chain.Run.init asciiPlatform _ started
  have refines := @Chain.Refines.init asciiPlatform _ started
  have stored := @Represents.stores asciiPlatform data genesisChain represents
  have hashes := @StoresBlocks.hashes_eq asciiPlatform _ _ stored
  have absent : ¬ data.hasBlock orphanRow.blockHash := by
    rw [Tables.hasBlock, ← hashes]
    decide
  have replayable := @Represents.replayable_orphaned genesisChain asciiPlatform data _ represents
    run absent
  refine ⟨data, opened, ?_, ?_⟩
  · have identity : (SQLiteChainStorage.onTables data.orphaned).validateIdentity = .ok () :=
      validateIdentity_eq (@Represents.identity asciiPlatform data genesisChain represents) rfl rfl
        rfl
    unfold SQLiteChainStorage.openExisting
    rw [started, ok_bind]
    change ((SQLiteChainStorage.onTables data.orphaned).validateIdentity >>= fun _ => _) = _
    rw [identity]
    rfl
  · rw [@Replayable.allOrNothing_iff genesisChain asciiPlatform _ replayable]
    rintro (⟨-, noOrphans⟩ | indexed)
    · exact absent (noOrphans orphanRow (List.mem_append_right _ (List.mem_singleton_self _)))
    · exact @Chain.Refines.not_indexed genesisChain asciiPlatform data.orphaned refines rfl indexed

end OurCoin
