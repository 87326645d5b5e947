import OurCoin.Library.Faulting
import OurCoin.Node.Mining
import OurCoin.Storage.Completion
import OurCoin.Storage.Tampering
import OurCoin.Wire.Faults

/-!
# What persisting an update raises

The callers of `submit_block` tell a block that the chain refuses from a database that fails
by the class of the error: only the first is held against the peer that sent the block.
`persistChainUpdate_raises`: for a block that the chain stores, persisting raises no error that
is held against a peer (`Spares`), whatever the database holds and whichever statements fail.
-/

set_option autoImplicit false

namespace OurCoin

open Raising Transactions

/-- The classes that `_handle_block` and `_run` answer with a penalty. -/
def ErrorClass.blamesPeer : ErrorClass → Bool
  | .chainError => true
  | .protocolError => true
  | .transactionError => true
  | .unsupportedProtocolVersionError => true
  | .peerFrameTimeoutError => true
  | _ => false

/-- An error that is not held against a peer. -/
def Spares (e : Raised) : Prop := e.cls.blamesPeer = false

theorem Spares.of_eq {e : Raised} {cls : ErrorClass} (same : e.cls = cls)
    (other : cls.blamesPeer = false) : Spares e :=
  (congrArg ErrorClass.blamesPeer same).trans other

/-- Errors of one class that is not held against a peer. -/
theorem spares_of_class {α : Type} {x : Except Raised α} {cls : ErrorClass}
    (only : RaisesOnly (fun e => e.cls = cls) x) (other : cls.blamesPeer = false) :
    RaisesOnly Spares x :=
  only.mono fun _ same => .of_eq same other

variable [Platform]

/-! ## Computations -/

omit [Platform] in
theorem encodeU64_spares (value : Int) : RaisesOnly Spares (encodeU64 value) :=
  (encodeU64_raises value).mono fun _ fails => .of_eq fails.1 (by decide)

omit [Platform] in
theorem accountValues_raises (item : Text × Account) : RaisesOnly Spares (accountValues item) := by
  rw [accountValues]
  refine .bind (encodeU64_spares _) fun _ _ => ?_
  exact .bind (encodeU64_spares _) fun _ _ => .pure _

omit [Platform] in
theorem recordFromRow_raises (row : BlockRow) : RaisesOnly Spares (recordFromRow row) := by
  have blob : ∀ value length fieldName, RaisesOnly Spares (exactBlob value length fieldName) :=
    fun _ _ _ => spares_of_class (exactBlob_raises _ _ _) (by decide)
  have number : ∀ value fieldName, RaisesOnly Spares (decodeStoredU64 value fieldName) := by
    intro value fieldName
    rw [decodeStoredU64]
    refine .bind (.raiseIf rfl) fun _ _ => ?_
    apply spares_of_class _ (by decide : ErrorClass.storageIntegrityError.blamesPeer = false)
    exact RecordFault.reraised (readAll_raises .encoding (readUnsigned_raises .encoding 8) _)
  have work : ∀ value, RaisesOnly Spares (decodeWork value) := by
    intro value
    rw [decodeWork]
    refine .bind (.raiseIf rfl) fun _ _ => ?_
    exact .bind (.raiseIf rfl) fun _ _ => .pure _
  have parent : ∀ parentHash, RaisesOnly Spares (parentFromRow parentHash) := by
    intro parentHash
    cases parentHash with
    | none => exact .pure _
    | some hash => exact .bind (blob _ _ _) fun _ _ => .pure _
  rw [recordFromRow]
  refine .bind (parent _) fun _ _ => .bind (blob _ _ _) fun _ _ => ?_
  refine .bind (number _ _) fun _ _ => .bind (work _) fun _ _ => ?_
  exact .bind (number _ _) fun _ _ => .pure _

omit [Platform] in
theorem expectedPreviousTip_raises (update : ChainUpdate) :
    RaisesOnly Spares (SQLiteChainStorage.expectedPreviousTip update) := by
  rw [SQLiteChainStorage.expectedPreviousTip]
  split
  · exact .pure _
  · split
    · exact .pure _
    · exact .pure _
    · exact .throw rfl

/-! ## Statements -/

omit [Platform] in
/-- A statement fails with the error of SQLite. -/
theorem allows_statement {change : Tables → Except Raised (Unit × Tables)}
    (only : ∀ tables, RaisesOnly (fun e => e.cls = .sqliteError) (change tables)) :
    Allows Spares (statement change) :=
  .execute rfl fun tables =>
    spares_of_class (only tables) (by decide)

omit [Platform] in
theorem allows_query {α : Type} (read : Tables → α) : Allows Spares (query operationalError read) :=
  .query rfl

omit [Platform] in
/-- A change that checks the constraints of the schema. -/
theorem constraint_raises {bad : Prop} [Decidable bad] :
    RaisesOnly (fun e : Raised => e.cls = .sqliteError) (raiseIf bad constraintFailed) :=
  .raiseIf rfl

omit [Platform] in
theorem insertAccounts_allows : ∀ items : List (Text × Account), Allows Spares (insertAccounts items)
  | [] => .pure ()
  | item :: rest => by
      rw [insertAccounts]
      refine .bind (.lift (accountValues_raises item)) fun row => ?_
      refine .bind (allows_statement fun tables => ?_) fun _ => insertAccounts_allows rest
      exact .bind constraint_raises fun _ _ => .bind constraint_raises fun _ _ => .pure _

theorem insertTransactions_allows (blockHash : Bytes) : ∀ (position : Nat)
    {transactions : List Transaction}, (∀ tx ∈ transactions, ∃ txid, tx.txid = .ok txid) →
      Allows Spares (insertTransactions blockHash position transactions)
  | _, [], _ => .pure ()
  | position, tx :: rest, named => by
      obtain ⟨txid, txidOk⟩ := named tx List.mem_cons_self
      have written := txidOk
      simp only [Transaction.txid, bind_eq_ok] at written
      obtain ⟨bytes, bytesOk, -⟩ := written
      have rowOk : transactionValues blockHash position tx = .ok ⟨blockHash, position, txid, bytes⟩ := by
        rw [transactionValues, txidOk, ok_bind, bytesOk, ok_bind]
        rfl
      rw [insertTransactions]
      refine .bind (.lift (.of_ok rowOk)) fun row => ?_
      refine .bind (allows_statement fun tables => ?_) fun _ =>
        insertTransactions_allows blockHash (position + 1) fun other member =>
          named other (List.mem_cons_of_mem _ member)
      refine .bind constraint_raises fun _ _ => .bind constraint_raises fun _ _ => ?_
      exact .bind constraint_raises fun _ _ => .pure _

theorem insertConfirmed_allows {block : Block} {hash : Bytes} (hashOk : block.blockHash = .ok hash) :
    ∀ {transactions : List Transaction}, (∀ tx ∈ transactions, ∃ txid, tx.txid = .ok txid) →
      Allows Spares (insertConfirmed block transactions)
  | [], _ => .pure ()
  | tx :: rest, named => by
      obtain ⟨txid, txidOk⟩ := named tx List.mem_cons_self
      have rowOk : confirmedValues block tx = .ok ⟨txid, hash⟩ := by
        rw [confirmedValues, txidOk, ok_bind, hashOk, ok_bind]
        rfl
      rw [insertConfirmed]
      refine .bind (.lift (.of_ok rowOk)) fun row => ?_
      refine .bind (allows_statement fun tables => ?_) fun _ =>
        insertConfirmed_allows hashOk fun other member =>
          named other (List.mem_cons_of_mem _ member)
      refine .bind constraint_raises fun _ _ => .bind constraint_raises fun _ _ => ?_
      exact .bind constraint_raises fun _ _ => .pure _

/-- A block whose hash and transaction IDs exist. -/
def Block.Named (block : Block) : Prop :=
  (∃ hash, block.blockHash = .ok hash) ∧ ∀ tx ∈ block.transactions, ∃ txid, tx.txid = .ok txid

theorem insertCanonical_allows : ∀ {blocks : List Block}, (∀ block ∈ blocks, block.Named) →
    Allows Spares (insertCanonical blocks)
  | [], _ => .pure ()
  | block :: rest, named => by
      obtain ⟨⟨hash, hashOk⟩, txids⟩ := named block List.mem_cons_self
      have values : RaisesOnly Spares (canonicalValues block) := by
        rw [canonicalValues]
        exact .bind (encodeU64_spares _) fun _ _ => .bind (.of_ok hashOk) fun _ _ => .pure _
      rw [insertCanonical]
      refine .bind (.lift values) fun row => ?_
      refine .bind (allows_statement fun tables => ?_) fun _ => ?_
      · refine .bind constraint_raises fun _ _ => .bind constraint_raises fun _ _ => ?_
        refine .bind constraint_raises fun _ _ => .bind constraint_raises fun _ _ => ?_
        exact .pure _
      · refine .bind (insertConfirmed_allows hashOk txids) fun _ => ?_
        exact insertCanonical_allows fun other member => named other (List.mem_cons_of_mem _ member)

namespace Chain.Refines

variable {chain : Chain} {hash : Bytes} {entry : ChainEntry}

theorem named (refines : chain.Refines) (stored : chain.entries.get? hash = some entry) :
    entry.block.Named :=
  ⟨⟨hash, refines.blockHash_ok stored⟩, refines.exists_txids stored⟩

theorem insertBlock_allows (refines : chain.Refines)
    (stored : chain.entries.get? hash = some entry) : Allows Spares (insertBlock chain hash) := by
  obtain ⟨row, rowOk, -⟩ := refines.exists_blockValues stored
  have blockOk := getBlock_eq_ok stored
  have recordOk := getRecord_eq_ok stored
  rw [insertBlock]
  refine .lift_bind (.of_ok blockOk) fun block same => ?_
  rw [blockOk] at same
  cases same
  refine .lift_bind (.of_ok recordOk) fun record same => ?_
  rw [recordOk] at same
  cases same
  refine .bind (.lift (.of_ok rowOk)) fun row => ?_
  refine .bind (allows_statement fun tables => ?_) fun _ =>
    insertTransactions_allows hash 0 (refines.exists_txids stored)
  refine .bind constraint_raises fun _ _ => .bind constraint_raises fun _ _ => ?_
  exact .bind constraint_raises fun _ _ => .pure _

theorem replaceDerivedState_allows (refines : chain.Refines) :
    Allows Spares (replaceDerivedState chain) := by
  obtain ⟨path, branch, ends⟩ := refines.exists_branch chain.tipEntry_stored
  obtain ⟨state, stateOk, -⟩ := refines.restores ends
  rw [replaceDerivedState]
  refine .bind (allows_statement fun _ => .of_ok rfl) fun _ => ?_
  refine .bind (allows_statement fun _ => .of_ok rfl) fun _ => ?_
  refine .bind (allows_statement fun _ => .of_ok rfl) fun _ => ?_
  refine .lift_bind (.of_ok (Chain.Reachable.activeChain_eq ends)) fun blocks active => ?_
  rw [Chain.Reachable.activeChain_eq ends] at active
  cases active
  apply Allows.bind
  · apply insertCanonical_allows
    intro block member
    obtain ⟨item, inPath, rfl⟩ := List.mem_map.mp member
    exact refines.named (ends.lineage.find_of_mem inPath)
  intro _
  refine .bind (.lift (.of_ok stateOk)) fun state => ?_
  refine .bind (insertAccounts_allows _) fun _ => ?_
  refine .bind (.lift (encodeU64_spares _)) fun supply => ?_
  refine allows_statement fun tables => ?_
  exact .bind constraint_raises fun _ _ => .bind constraint_raises fun _ _ => .pure _

theorem assertStoredBlockMatches_allows (stored : chain.entries.get? hash = some entry) :
    Allows Spares (SQLiteChainStorage.assertStoredBlockMatches chain hash) := by
  have blob : RaisesOnly Spares (exactBlob hash 32 "requested block hash") :=
    spares_of_class (exactBlob_raises _ _ _) (by decide)
  rw [SQLiteChainStorage.assertStoredBlockMatches]
  refine .bind (.lift blob) fun exactHash => .bind (allows_query _) fun found' => ?_
  refine .bind (.lift ?_) fun row => ?_
  · split
    · exact .pure _
    · exact .throw rfl
  refine .lift_bind (spares_of_class (decodeHeads_raises row) (by decide)) fun heads headsOk => ?_
  refine .bind (allows_query _) fun transactionRows => .lift ?_
  refine .bind (spares_of_class (decodeBody_raises headsOk _) (by decide)) fun _ _ => ?_
  refine .bind (.of_ok (getBlock_eq_ok stored)) fun _ _ => ?_
  refine .bind (.raiseIf rfl) fun _ _ => ?_
  refine .bind (recordFromRow_raises row) fun _ _ => ?_
  refine .bind (.of_ok (getRecord_eq_ok stored)) fun _ _ => ?_
  exact .raiseIf rfl

end Chain.Refines

/-! ## Updates -/

namespace SQLiteChainStorage

omit [Platform] in
theorem metadataRow_allows (storage : SQLiteChainStorage) : Allows Spares storage.metadataRow := by
  rw [metadataRow]
  refine .bind (.lift (.raiseIf rfl)) fun _ => .bind (allows_query _) fun rows => ?_
  refine .lift ?_
  unfold onlyMetadataRow
  split
  · exact .pure _
  · exact .throw rfl

/-- **Persisting an update of a stored block** raises nothing that is held against a peer. -/
theorem persistChainUpdate_raises (storage : SQLiteChainStorage) {chain : Chain}
    (refines : chain.Refines) {update : ChainUpdate} {entry : ChainEntry}
    (stored : chain.entries.get? update.addedBlockHash = some entry) (faults : List Fault) :
    RaisesOnly Spares (storage.persistChainUpdate chain update faults).1 := by
  have checks : RaisesOnly Spares (do
      storage.ensureOpen
      raiseIf (chain.network ≠ storage.network)
        ⟨.networkMismatchError, "validated chain belongs to another network"⟩
      raiseIf (¬ chain.contains update.addedBlockHash = true)
        (storageIntegrityError "chain update does not exist in the supplied chain")
      raiseIf (chain.activeTipHash ≠ update.activeTipHash)
        (storageIntegrityError "chain update active tip does not match the supplied chain")) := by
    refine .bind (.raiseIf rfl) fun _ _ => ?_
    refine .bind (.raiseIf rfl) fun _ _ => ?_
    refine .bind (.raiseIf rfl) fun _ _ => ?_
    exact .raiseIf rfl
  have body : Allows Spares (storage.persistBody chain update) := by
    rw [persistBody]
    refine .bind storage.metadataRow_allows fun metadata => ?_
    refine .bind (.lift (spares_of_class (exactBlob_raises _ _ _) (by decide))) fun storedTip => ?_
    refine .bind (allows_query _) fun existing => ?_
    split
    · refine .bind (Chain.Refines.assertStoredBlockMatches_allows stored) fun _ => ?_
      exact .bind (.commit rfl) fun _ => .pure _
    · refine .bind (.lift (expectedPreviousTip_raises update)) fun expected => ?_
      refine .bind (.lift (.raiseIf rfl)) fun _ => ?_
      refine .bind (refines.insertBlock_allows stored) fun _ => ?_
      dsimp only
      split
      · refine .bind refines.replaceDerivedState_allows fun _ => ?_
        exact .bind (.commit rfl) fun _ => .pure _
      · exact .bind (.commit rfl) fun _ => .pure _
  rw [persistChainUpdate]
  dsimp only
  split
  · rename_i e raised
    intro e' same
    cases same
    exact checks e raised
  · have translated : ∀ e, Spares e → Spares (persistError e) := by
      intro e other
      rw [persistError]
      split
      · rfl
      · exact other
    have whole : Allows Spares (rollingBack persistError (do
        begin operationalError
        storage.persistBody chain update)) := by
      apply Allows.rollingBack
      intro session e raised
      have opened : Allows Spares (begin operationalError >>= fun _ =>
          storage.persistBody chain update) :=
        .bind (.begin rfl) fun _ => body
      exact translated e (opened session e raised)
    exact whole ⟨storage.connection, faults⟩

end SQLiteChainStorage

/-- **A block that the chain accepts** is not held against the peer. Only the database can
refuse it. -/
theorem LocalNode.Invariant.submitBlock_raises {node : LocalNode} (inv : node.Invariant)
    {block : Block} {update : ChainUpdate} {grown : Chain}
    (added : node.chain.addBlock block = (.ok update, grown)) (faults : List Fault) :
    RaisesOnly Spares (node.submitBlock block faults).1 := by
  rcases inv.submitBlock_of_added added faults with ⟨after, returned, -⟩ |
    ⟨storage, e, -, refused, returned⟩
  · rw [returned]
    exact .pure _
  · have refines := inv.chain_reachable.refines
    have refines' : grown.Refines := by
      have grows := refines.addBlock block
      rwa [added] at grows
    have stored : ∃ entry, grown.entries.get? update.addedBlockHash = some entry := by
      rcases refines.addBlock_cases block with ⟨e, -, run⟩ | ⟨entry, -, -, run⟩ |
        ⟨entry, _, _, _, _, -, -, -, run⟩
      · rw [added] at run
        cases run
      · rw [added] at run
        cases run
        exact ⟨entry, Dict.get?_set_self _ _ _⟩
      · rw [added] at run
        cases run
        exact ⟨entry, Dict.get?_set_self _ _ _⟩
    obtain ⟨entry, stored⟩ := stored
    have only := storage.persistChainUpdate_raises refines' stored faults e refused
    rw [returned]
    exact .throw only

end OurCoin
