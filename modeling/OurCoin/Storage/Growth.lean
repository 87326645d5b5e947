import Mathlib.Logic.Relation
import OurCoin.Storage.Representation

/-!
# What every call keeps

`persist_chain_update` on any tables, with any chain and update: whatever it commits, the
rows of `blocks` stay first, and the transactions of a stored block stay as they are
(`Tables.Persists.extends`). This holds over any sequence of calls (`Tables.Extends.of_calls`).
-/

set_option autoImplicit false

namespace OurCoin

open Raising Transactions SQLiteChainStorage

variable [Platform]

/-! ## Tables that were extended -/

/-- Nothing changes about the blocks that are stored. -/
structure Tables.Extends (tables tables' : Tables) : Prop where
  blocks : tables.blocks <+: tables'.blocks
  bodies : ∀ hash, tables.hasBlock hash → tables'.transactionRows hash = tables.transactionRows hash

namespace Tables.Extends

variable {tables tables' tables'' : Tables}

omit [Platform] in
theorem refl (tables : Tables) : tables.Extends tables :=
  ⟨List.prefix_rfl, fun _ _ => rfl⟩

omit [Platform] in
theorem hasBlock (extends' : tables.Extends tables') {hash : Bytes} (stored : tables.hasBlock hash) :
    tables'.hasBlock hash :=
  (extends'.blocks.map BlockRow.blockHash).subset stored

omit [Platform] in
theorem trans (first : tables.Extends tables') (second : tables'.Extends tables'') :
    tables.Extends tables'' where
  blocks := first.blocks.trans second.blocks
  bodies hash stored :=
    (second.bodies hash (first.hasBlock stored)).trans (first.bodies hash stored)

end Tables.Extends

/-- During the insertion of one block: the rows of `blocks` stay, and so do the transactions
of the others. -/
structure Tables.Inserting (before : Tables) (blockHash : Bytes) (tables : Tables) : Prop where
  blocks : before.blocks <+: tables.blocks
  bodies : ∀ hash, hash ≠ blockHash → tables.transactionRows hash = before.transactionRows hash

omit [Platform] in
theorem Tables.Inserting.extends {before tables : Tables} {blockHash : Bytes}
    (inserting : before.Inserting blockHash tables) (fresh : ¬ before.hasBlock blockHash) :
    before.Extends tables where
  blocks := inserting.blocks
  bodies hash stored := inserting.bodies hash (by rintro rfl; exact fresh stored)

theorem inserting_insertTransactions (before : Tables) (blockHash : Bytes) :
    ∀ (transactions : List Transaction) (position : Nat),
      Within (before.Inserting blockHash) (insertTransactions blockHash position transactions)
        fun _ => before.Inserting blockHash
  | [], _ => .pure fun _ held => held
  | tx :: rest, position => by
      refine @Within.bind _ _ _ _ _ (fun row tables => row.blockHash = blockHash ∧
        before.Inserting blockHash tables) _ _ _ (Within.lift ?_) fun row => ?_
      · intro row tables rowOk held
        simp only [transactionValues, bind_eq_ok, pure_eq_ok] at rowOk
        obtain ⟨_, -, _, -, rfl⟩ := rowOk
        exact ⟨rfl, held⟩
      · refine @Within.bind _ _ _ _ _ (fun _ => before.Inserting blockHash) _ _ _
          (Within.execute ?_) fun _ => inserting_insertTransactions before blockHash rest _
        rintro tables _ tables' ⟨named, held⟩ run
        obtain rfl := Tables.insertTransactionRow_eq run
        refine ⟨held.blocks, fun hash other => ?_⟩
        rw [← held.bodies hash other, Tables.transactionRows, Tables.transactionRows,
          List.filter_append, List.filter_cons_of_neg, List.filter_nil, List.append_nil]
        rw [named, decide_eq_true_eq]
        exact other.symm

theorem inserting_insertBlock (before : Tables) (blockHash : Bytes) (chain : Chain) :
    Within (before.Inserting blockHash) (insertBlock chain blockHash)
      fun _ => before.Inserting blockHash := by
  refine Within.bind (Within.lift fun _ _ _ held => held) fun block => ?_
  refine Within.bind (Within.lift fun _ _ _ held => held) fun record => ?_
  refine Within.bind (Within.lift fun _ _ _ held => held) fun row => ?_
  refine Within.bind (Within.execute ?_) fun _ =>
    inserting_insertTransactions before blockHash block.transactions 0
  rintro tables _ tables' held run
  obtain rfl := Tables.insertBlockRow_eq run
  exact ⟨held.blocks.trans (List.prefix_append _ _), held.bodies⟩

theorem leads_insertBlock (chain : Chain) (blockHash : Bytes) (before : Tables) :
    Leads before (insertBlock chain blockHash) fun _ => before.Inserting blockHash := by
  rintro session working isOpen rfl
  exact inserting_insertBlock working blockHash chain session working isOpen
    ⟨List.prefix_rfl, fun _ _ => rfl⟩

theorem inserting_replaceDerivedState (before : Tables) (blockHash : Bytes) (chain : Chain) :
    Within (before.Inserting blockHash) (replaceDerivedState chain)
      fun _ => before.Inserting blockHash := by
  intro session working isOpen held
  obtain ⟨kept, success⟩ := leads_replaceDerivedState chain working session working isOpen rfl
  refine ⟨kept, fun a returned => ?_⟩
  obtain ⟨working', isOpen', rederived⟩ := success a returned
  refine ⟨working', isOpen', rederived.blocks_eq ▸ held.blocks, fun hash other => ?_⟩
  rw [← held.bodies hash other, Tables.transactionRows, Tables.transactionRows,
    rederived.blockTransactions_eq]

omit [Platform] in
theorem leads_metadataRow (storage : SQLiteChainStorage) (before : Tables) :
    Leads before storage.metadataRow fun _ tables => tables = before :=
  .lift_bind fun _ _ => .query_bind (.lift fun _ _ => rfl)

theorem leads_assertStoredBlockMatches (chain : Chain) (blockHash : Bytes) (before : Tables) :
    Leads before (assertStoredBlockMatches chain blockHash) fun _ tables => tables = before :=
  .lift_bind fun _ _ => .query_bind <| .lift_bind fun _ _ => .lift_bind fun _ _ =>
    .query_bind (.lift fun _ _ => rfl)

/-- **Whatever a call commits**, nothing changes about the blocks that are stored. -/
theorem closing_persistBody (storage : SQLiteChainStorage) (supplied : Chain) (update : ChainUpdate)
    (before : Tables) :
    Closing (fun tables => tables = before) (storage.persistBody supplied update)
      fun _ => before.Extends := by
  have computed : ∀ {α : Type} (x : Except Raised α) (tables : Tables),
      Leads tables (lift x) fun _ tables' => tables' = tables :=
    fun _ _ => .lift fun _ _ => rfl
  apply Leads.closing (leads_metadataRow storage before)
  rintro metadata _ rfl
  apply Leads.closing (computed _ _)
  rintro storedTip _ rfl
  refine @Leads.closing _ _ _ _ _ (fun existing tables =>
    existing = tables.blockRow? update.addedBlockHash ∧ tables = _) _ _ _
    (.execute fun _ _ same => by cases same; exact ⟨rfl, rfl⟩) ?_
  rintro _ before ⟨rfl, rfl⟩
  split
  · apply Leads.closing (leads_assertStoredBlockMatches supplied update.addedBlockHash before)
    rintro _ _ rfl
    apply Closing.commit
    rintro _ rfl
    exact .refl _
  · rename_i missing
    have fresh : ¬ before.hasBlock update.addedBlockHash := by
      intro stored
      obtain ⟨row, member, named⟩ := List.mem_map.mp stored
      rw [Tables.blockRow?, List.find?_isSome] at missing
      exact missing ⟨row, member, decide_eq_true_eq.mpr named⟩
    apply Leads.closing (computed _ _)
    rintro expected _ rfl
    apply Leads.closing (computed _ _)
    rintro _ _ rfl
    apply Closing.bind (leads_insertBlock supplied update.addedBlockHash _)
    intro _
    dsimp only
    split
    · apply Closing.bind (inserting_replaceDerivedState _ update.addedBlockHash supplied)
      intro _
      exact .commit fun _ held => held.extends fresh
    · exact .commit fun _ held => held.extends fresh

/-- What a call of `persist_chain_update` by another node commits, whatever chain and update
it is given. -/
def Tables.Persists (tables tables' : Tables) : Prop :=
  ∃ supplied update faults, tables' =
    ((onTables tables).persistChainUpdate supplied update faults).2.connection.committed

theorem Tables.Persists.extends {tables tables' : Tables} (persists : tables.Persists tables') :
    tables.Extends tables' := by
  obtain ⟨supplied, update, faults, rfl⟩ := persists
  unfold persistChainUpdate
  dsimp only
  split
  · exact .refl _
  · have outcomes := @transaction_cases _ _ _ operationalError persistError _ _ _
      (closing_persistBody (onTables tables) supplied update tables)
      ⟨(onTables tables).connection, faults⟩ rfl rfl
    generalize rollingBack persistError _ _ = outcome at outcomes
    obtain ⟨result, session⟩ := outcome
    rcases outcomes with ⟨e, -, unchanged⟩ | ⟨_, data, -, committed, extended⟩
    · dsimp only at unchanged ⊢
      rw [unchanged]
      exact .refl _
    · dsimp only at committed ⊢
      rw [committed]
      exact extended

/-- **Any sequence of calls** keeps the stored blocks. -/
theorem Tables.Extends.of_calls {tables tables' : Tables}
    (calls : Relation.ReflTransGen Tables.Persists tables tables') : tables.Extends tables' := by
  induction calls with
  | refl => exact .refl _
  | tail _ call ih => exact ih.trans call.extends

end OurCoin
