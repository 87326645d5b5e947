import OurCoin.Storage.Constraints
import OurCoin.Tree.Walks

/-!
# What the statements of an update write

The effect of each group of statements on the tables, when no statement raises: which
rows are appended and which tables are replaced. `Turns before x after` is the rule in
which this is stated: from the tables `before`, success leads to tables with `after`, and
the constraints of the schema are kept. The derived state is also written to tables that
violate a constraint, so its statements have the two parts apart: `Leads`, and `Upholds` for
the constraints.

* `turns_insertBlock`: one row of `blocks` with the next acceptance order, and the rows of
  its transactions.
* `turns_replaceDerivedState`: the canonical index, the confirmed transactions and the
  accounts are those of the active chain, whatever they were before.
-/

set_option autoImplicit false

namespace OurCoin

open Raising Transactions

/-! ## The rule -/

/-- Success leads from the tables `before` to tables with `after`, and the constraints are
kept. -/
def Turns {α : Type} (before : Tables) (x : Statement α) (after : α → Tables → Prop) : Prop :=
  Within (fun tables => tables = before ∧ tables.Consistent) x
    fun a tables => after a tables ∧ tables.Consistent

namespace Turns

variable {α β : Type} {before : Tables} {after : α → Tables → Prop} {final : β → Tables → Prop}

theorem pure {a : α} (holds : after a before) : Turns before (Pure.pure a) after := by
  apply Within.pure
  rintro tables ⟨rfl, consistent⟩
  exact ⟨holds, consistent⟩

theorem lift {x : Except Raised α} (holds : ∀ a, x = .ok a → after a before) :
    Turns before (Transactions.lift x) after := by
  apply Within.lift
  rintro a tables computed ⟨rfl, consistent⟩
  exact ⟨holds a computed, consistent⟩

/-- Statements in sequence. -/
theorem bind {x : Statement α} {f : α → Statement β} (first : Turns before x after)
    (next : ∀ a tables, after a tables → Turns tables (f a) final) :
    Turns before (x >>= f) final := by
  apply Within.bind first
  intro a session working isOpen held
  exact next a working held.1 session working isOpen ⟨rfl, held.2⟩

/-- A computed value before statements. -/
theorem lift_bind {x : Except Raised α} {f : α → Statement β}
    (next : ∀ a, x = .ok a → Turns before (f a) final) :
    Turns before (Transactions.lift x >>= f) final := by
  refine @bind _ _ _ (fun a tables => x = .ok a ∧ tables = before) _ _ _ ?_ ?_
  · exact lift fun a computed => ⟨computed, rfl⟩
  · rintro a tables ⟨computed, rfl⟩
    exact next a computed

/-- A statement that leads to known tables, and what follows it. -/
theorem step {change : Tables → Except Raised (Unit × Tables)} {f : Unit → Statement β}
    (result : Tables)
    (keeps : ∀ tables, before.Consistent → change before = .ok ((), tables) → tables.Consistent)
    (does : ∀ tables, change before = .ok ((), tables) → tables = result)
    (next : Turns result (f ()) final) : Turns before (statement change >>= f) final := by
  refine @bind _ _ _ (fun _ tables => tables = result) _ _ _ ?_ ?_
  · apply Within.execute
    rintro working a working' ⟨rfl, consistent⟩ run
    exact ⟨does working' run, keeps working' consistent run⟩
  · rintro _ tables rfl
    exact next

/-- A statement that leads to known tables. -/
theorem last {change : Tables → Except Raised (Unit × Tables)} (result : Tables)
    (keeps : ∀ tables, before.Consistent → change before = .ok ((), tables) → tables.Consistent)
    (does : ∀ tables, change before = .ok ((), tables) → tables = result) :
    Turns before (statement change) fun _ tables => tables = result := by
  apply Within.execute
  rintro working a working' ⟨rfl, consistent⟩ run
  exact ⟨does working' run, keeps working' consistent run⟩

theorem query {read : Tables → α} (holds : after (read before) before) :
    Turns before (Transactions.query operationalError read) after := by
  apply Within.query
  rintro working ⟨rfl, consistent⟩
  exact ⟨holds, consistent⟩

end Turns

/-- Success commits tables with `after`, and the constraints are kept. -/
def Commits {α : Type} (before : Tables) (x : Statement α) (after : α → Tables → Prop) : Prop :=
  Closing (fun tables => tables = before ∧ tables.Consistent) x
    fun a tables => after a tables ∧ tables.Consistent

namespace Commits

variable {α β : Type} {before : Tables} {after : α → Tables → Prop} {final : β → Tables → Prop}

/-- Statements before the commit. -/
theorem bind {x : Statement α} {f : α → Statement β} (first : Turns before x after)
    (next : ∀ a tables, after a tables → Commits tables (f a) final) :
    Commits before (x >>= f) final := by
  apply Closing.bind first
  intro a session working isOpen held
  exact next a working held.1 session working isOpen ⟨rfl, held.2⟩

/-- A computed value before the commit. -/
theorem lift_bind {x : Except Raised α} {f : α → Statement β}
    (next : ∀ a, x = .ok a → Commits before (f a) final) :
    Commits before (Transactions.lift x >>= f) final := by
  refine @bind _ _ _ (fun a tables => x = .ok a ∧ tables = before) _ _ _ ?_ ?_
  · exact Turns.lift fun a computed => ⟨computed, rfl⟩
  · rintro a tables ⟨computed, rfl⟩
    exact next a computed

theorem commit {a : α} (holds : before.Consistent → after a before) :
    Commits before (do Transactions.commit operationalError; Pure.pure a) after := by
  apply Closing.commit
  rintro tables ⟨rfl, consistent⟩
  exact ⟨holds consistent, consistent⟩

end Commits

/-! ## Single statements -/

namespace Tables

variable {tables tables' : Tables}

theorem insertBlockRow_eq {row : BlockRow} (run : insertBlockRow row tables = .ok ((), tables')) :
    tables' = { tables with
      sequence := tables.sequence + 1
      blocks := tables.blocks ++ [{ row with acceptanceOrder := tables.sequence + 1 }] } := by
  simp only [insertBlockRow, bind_eq_ok, raiseIf_eq_ok, exists_const, pure_eq_ok, Prod.mk.injEq,
    true_and] at run
  exact run.2.2.2.symm

theorem insertTransactionRow_eq {row : TransactionRow}
    (run : insertTransactionRow row tables = .ok ((), tables')) :
    tables' = { tables with blockTransactions := tables.blockTransactions ++ [row] } := by
  simp only [insertTransactionRow, bind_eq_ok, raiseIf_eq_ok, exists_const, pure_eq_ok,
    Prod.mk.injEq, true_and] at run
  exact run.2.2.2.symm

theorem insertCanonicalRow_eq {row : CanonicalRow}
    (run : insertCanonicalRow row tables = .ok ((), tables')) :
    tables' = { tables with canonicalChain := tables.canonicalChain ++ [row] } := by
  simp only [insertCanonicalRow, bind_eq_ok, raiseIf_eq_ok, exists_const, pure_eq_ok,
    Prod.mk.injEq, true_and] at run
  exact run.2.2.2.2.symm

theorem insertConfirmedRow_eq {row : ConfirmedRow}
    (run : insertConfirmedRow row tables = .ok ((), tables')) :
    tables' = { tables with confirmedTransactions := tables.confirmedTransactions ++ [row] } := by
  simp only [insertConfirmedRow, bind_eq_ok, raiseIf_eq_ok, exists_const, pure_eq_ok,
    Prod.mk.injEq, true_and] at run
  exact run.2.2.2.symm

theorem insertAccountRow_eq {row : AccountRow}
    (run : insertAccountRow row tables = .ok ((), tables')) :
    tables' = { tables with accounts := tables.accounts ++ [row] } := by
  simp only [insertAccountRow, bind_eq_ok, raiseIf_eq_ok, exists_const, pure_eq_ok,
    Prod.mk.injEq, true_and] at run
  exact run.2.2.symm

theorem insertMetadataRow_eq {row : MetadataRow}
    (run : insertMetadataRow row tables = .ok ((), tables')) :
    tables' = { tables with chainMetadata := [row] } := by
  simp only [insertMetadataRow, bind_eq_ok, raiseIf_eq_ok, exists_const, pure_eq_ok,
    Prod.mk.injEq, true_and] at run
  exact run.2.2.2.symm

theorem updateMetadata_eq {tip supply : Bytes}
    (run : updateMetadata tip supply tables = .ok ((), tables')) :
    tables' = { tables with chainMetadata := tables.chainMetadata.map fun row =>
      { row with canonicalTipHash := tip, issuedSupplyAtoms := supply } } := by
  simp only [updateMetadata, bind_eq_ok, raiseIf_eq_ok, exists_const, pure_eq_ok,
    Prod.mk.injEq, true_and] at run
  exact run.2.2.symm

end Tables

variable [Platform]

/-! ## One block -/

/-- The rows of the transactions of a block, from a position on. -/
def bodyRows (blockHash : Bytes) : Nat → List Transaction → Except Raised (List TransactionRow)
  | _, [] => .ok []
  | position, tx :: rest => do
    return (← transactionValues blockHash position tx) :: (← bodyRows blockHash (position + 1) rest)

theorem turns_insertTransactions (blockHash : Bytes) : ∀ (transactions : List Transaction)
    (position : Nat) (before : Tables),
    Turns before (insertTransactions blockHash position transactions) fun _ tables =>
      ∃ rows, bodyRows blockHash position transactions = .ok rows ∧
        tables = { before with blockTransactions := before.blockTransactions ++ rows }
  | [], position, before => .pure ⟨[], rfl, by rw [List.append_nil]⟩
  | tx :: rest, position, before => by
      apply Turns.lift_bind
      intro row rowOk
      apply Turns.step _ (fun _ consistent run => consistent.insertTransactionRow run)
        fun _ run => Tables.insertTransactionRow_eq run
      apply Within.mono (turns_insertTransactions blockHash rest (position + 1) _)
      rintro _ tables ⟨⟨rows, rowsOk, rfl⟩, consistent⟩
      refine ⟨⟨row :: rows, ?_, ?_⟩, consistent⟩
      · simp only [bodyRows, rowOk, rowsOk, ok_bind]
        rfl
      · simp

/-- **Inserting a block** appends its row and the rows of its transactions. -/
theorem turns_insertBlock {chain : Chain} {blockHash : Bytes} {entry : ChainEntry}
    (stored : chain.entries.get? blockHash = some entry) (before : Tables) :
    Turns before (insertBlock chain blockHash) fun _ tables =>
      ∃ row rows, blockValues blockHash entry.block entry.record = .ok row ∧
        bodyRows blockHash 0 entry.block.transactions = .ok rows ∧
        tables = { before with
          sequence := before.sequence + 1
          blocks := before.blocks ++ [{ row with acceptanceOrder := before.sequence + 1 }]
          blockTransactions := before.blockTransactions ++ rows } := by
  apply Turns.lift_bind
  intro block blockOk
  apply Turns.lift_bind
  intro record recordOk
  simp only [Chain.getBlock, Chain.getRecord, bind_eq_ok, pure_eq_ok, Chain.entryOf_eq_ok, stored,
    Option.some.injEq, exists_eq_left'] at blockOk recordOk
  subst blockOk recordOk
  apply Turns.lift_bind
  intro row rowOk
  apply Turns.step _ (fun _ consistent run => consistent.insertBlockRow run)
    fun _ run => Tables.insertBlockRow_eq run
  apply Within.mono (turns_insertTransactions blockHash entry.block.transactions 0 _)
  rintro _ tables ⟨⟨rows, rowsOk, rfl⟩, consistent⟩
  exact ⟨⟨row, rows, rowOk, rowsOk, rfl⟩, consistent⟩

/-! ## The derived state -/

/-- Statements that keep the constraints of the schema. -/
def Upholds {α : Type} (x : Statement α) : Prop :=
  Within Tables.Consistent x fun _ => Tables.Consistent

namespace Upholds

variable {α β : Type}

omit [Platform] in
theorem lift (x : Except Raised α) : Upholds (Transactions.lift x) :=
  Within.lift fun _ _ _ consistent => consistent

omit [Platform] in
theorem bind {x : Statement α} {f : α → Statement β} (first : Upholds x) (next : ∀ a, Upholds (f a)) :
    Upholds (x >>= f) :=
  Within.bind first next

omit [Platform] in
theorem statement {change : Tables → Except Raised (Unit × Tables)}
    (keeps : ∀ before tables, before.Consistent → change before = .ok ((), tables) →
      tables.Consistent) : Upholds (OurCoin.statement change) :=
  Within.execute fun before _ tables consistent run => keeps before tables consistent run

end Upholds

theorem leads_insertConfirmed (block : Block) : ∀ (transactions : List Transaction)
    (before : Tables),
    Leads before (insertConfirmed block transactions) fun _ tables =>
      ∃ rows, transactions.mapM (confirmedValues block) = .ok rows ∧
        tables = { before with confirmedTransactions := before.confirmedTransactions ++ rows }
  | [], before => .pure ⟨[], rfl, by rw [List.append_nil]⟩
  | tx :: rest, before => by
      apply Leads.lift_bind
      intro row rowOk
      apply Leads.execute_bind
      intro _ inserted run
      obtain rfl := Tables.insertConfirmedRow_eq run
      apply Within.mono (leads_insertConfirmed block rest _)
      rintro _ tables ⟨rows, rowsOk, rfl⟩
      refine ⟨row :: rows, ?_, ?_⟩
      · rw [List.mapM_cons, rowOk, rowsOk]
        rfl
      · simp

theorem keeps_insertConfirmed (block : Block) : ∀ transactions : List Transaction,
    Upholds (insertConfirmed block transactions)
  | [] => Within.pure fun _ consistent => consistent
  | _ :: rest =>
      (Upholds.lift _).bind fun _ =>
        (Upholds.statement fun _ _ consistent run => consistent.insertConfirmedRow run).bind fun _ =>
          keeps_insertConfirmed block rest

/-- The rows of the confirmed transactions of a chain of blocks, block by block. -/
def confirmedRows (blocks : List Block) : Except Raised (List (List ConfirmedRow)) :=
  blocks.mapM fun block => block.transactions.mapM (confirmedValues block)

theorem leads_insertCanonical : ∀ (blocks : List Block) (before : Tables),
    Leads before (insertCanonical blocks) fun _ tables =>
      ∃ canonical confirmed, blocks.mapM canonicalValues = .ok canonical ∧
        confirmedRows blocks = .ok confirmed ∧
        tables = { before with
          canonicalChain := before.canonicalChain ++ canonical
          confirmedTransactions := before.confirmedTransactions ++ confirmed.flatten }
  | [], before => .pure ⟨[], [], rfl, rfl, by simp⟩
  | block :: rest, before => by
      apply Leads.lift_bind
      intro row rowOk
      apply Leads.execute_bind
      intro _ inserted run
      obtain rfl := Tables.insertCanonicalRow_eq run
      apply Leads.bind (leads_insertConfirmed block block.transactions _)
      rintro _ middle ⟨own, ownOk, rfl⟩
      apply Within.mono (leads_insertCanonical rest _)
      rintro _ tables ⟨canonical, confirmed, canonicalOk, confirmedOk, rfl⟩
      refine ⟨row :: canonical, own :: confirmed, ?_, ?_, ?_⟩
      · rw [List.mapM_cons, rowOk, canonicalOk]
        rfl
      · rw [confirmedRows] at confirmedOk ⊢
        rw [List.mapM_cons, ownOk, confirmedOk]
        rfl
      · simp

theorem keeps_insertCanonical : ∀ blocks : List Block, Upholds (insertCanonical blocks)
  | [] => Within.pure fun _ consistent => consistent
  | block :: rest =>
      (Upholds.lift _).bind fun _ =>
        (Upholds.statement fun _ _ consistent run => consistent.insertCanonicalRow run).bind fun _ =>
          (keeps_insertConfirmed block _).bind fun _ => keeps_insertCanonical rest

omit [Platform] in
theorem leads_insertAccounts : ∀ (items : List (Text × Account)) (before : Tables),
    Leads before (insertAccounts items) fun _ tables =>
      ∃ rows, items.mapM accountValues = .ok rows ∧
        tables = { before with accounts := before.accounts ++ rows }
  | [], before => .pure ⟨[], rfl, by rw [List.append_nil]⟩
  | item :: rest, before => by
      apply Leads.lift_bind
      intro row rowOk
      apply Leads.execute_bind
      intro _ inserted run
      obtain rfl := Tables.insertAccountRow_eq run
      apply Within.mono (leads_insertAccounts rest _)
      rintro _ tables ⟨rows, rowsOk, rfl⟩
      refine ⟨row :: rows, ?_, ?_⟩
      · rw [List.mapM_cons, rowOk, rowsOk]
        rfl
      · simp

omit [Platform] in
theorem keeps_insertAccounts : ∀ items : List (Text × Account), Upholds (insertAccounts items)
  | [] => Within.pure fun _ consistent => consistent
  | _ :: rest =>
      (Upholds.lift _).bind fun _ =>
        (Upholds.statement fun _ _ consistent run => consistent.insertAccountRow run).bind fun _ =>
          keeps_insertAccounts rest

/-- What the derived tables hold for a chain. -/
structure Derives (tables : Tables) (chain : Chain) : Prop where
  exists_rows : ∃ blocks state confirmed, chain.activeChain = .ok blocks ∧
    chain.state = .ok state ∧
    blocks.mapM canonicalValues = .ok tables.canonicalChain ∧
    confirmedRows blocks = .ok confirmed ∧ tables.confirmedTransactions = confirmed.flatten ∧
    state.snapshot.accounts.mapM accountValues = .ok tables.accounts
  exists_metadata : ∀ row ∈ tables.chainMetadata, row.canonicalTipHash = chain.activeTipHash ∧
    encodeU64 chain.totalSupplyAtoms = .ok row.issuedSupplyAtoms

/-- What was written for the derived state of a chain. -/
structure Rederived (before tables : Tables) (chain : Chain) : Prop where
  derives : Derives tables chain
  sequence_eq : tables.sequence = before.sequence
  blocks_eq : tables.blocks = before.blocks
  blockTransactions_eq : tables.blockTransactions = before.blockTransactions
  exists_supply : ∃ supply, encodeU64 chain.totalSupplyAtoms = .ok supply ∧
    tables.chainMetadata = before.chainMetadata.map fun row =>
      { row with canonicalTipHash := chain.activeTipHash, issuedSupplyAtoms := supply }

/-- The identity of the database is left alone. -/
theorem Rederived.identity_eq {before tables : Tables} {chain : Chain}
    (rederived : Rederived before tables chain) :
    tables.chainMetadata.map (fun row => (row.schemaVersion, row.chainId, row.genesisHash)) =
      before.chainMetadata.map fun row => (row.schemaVersion, row.chainId, row.genesisHash) := by
  obtain ⟨supply, -, metadata⟩ := rederived.exists_supply
  rw [metadata, List.map_map]
  rfl

/-- **Replacing the derived state** makes the derived tables those of the chain, and leaves
the blocks and the identity of the database alone. -/
theorem leads_replaceDerivedState (chain : Chain) (before : Tables) :
    Leads before (replaceDerivedState chain) fun _ tables => Rederived before tables chain := by
  rw [replaceDerivedState]
  apply Leads.execute_bind
  rintro _ _ ⟨⟩
  apply Leads.execute_bind
  rintro _ _ ⟨⟩
  apply Leads.execute_bind
  rintro _ _ ⟨⟩
  apply Leads.lift_bind
  intro blocks blocksOk
  apply Leads.bind (leads_insertCanonical blocks _)
  rintro _ indexed ⟨canonical, confirmed, canonicalOk, confirmedOk, rfl⟩
  apply Leads.lift_bind
  intro state stateOk
  apply Leads.bind (leads_insertAccounts state.snapshot.accounts _)
  rintro _ written ⟨accounts, accountsOk, rfl⟩
  apply Leads.lift_bind
  intro supply supplyOk
  apply Leads.execute
  intro _ tables run
  obtain rfl := Tables.updateMetadata_eq run
  refine ⟨⟨⟨blocks, state, confirmed, blocksOk, stateOk, ?_, confirmedOk, ?_, ?_⟩, ?_⟩, rfl, rfl, rfl,
    supply, supplyOk, rfl⟩
  · simpa using canonicalOk
  · simp
  · simpa using accountsOk
  · intro row member
    obtain ⟨old, -, rfl⟩ := List.mem_map.mp member
    exact ⟨rfl, supplyOk⟩

theorem keeps_replaceDerivedState (chain : Chain) : Upholds (replaceDerivedState chain) := by
  rw [replaceDerivedState]
  apply Upholds.bind (Upholds.statement fun _ _ consistent run => consistent.deleteCanonicalChain run)
  intro _
  apply Upholds.bind (Upholds.statement fun _ _ consistent run => consistent.deleteAccounts run)
  intro _
  apply Upholds.bind
    (Upholds.statement fun _ _ consistent run => consistent.deleteConfirmedTransactions run)
  intro _
  apply Upholds.bind (Upholds.lift _)
  intro blocks
  apply Upholds.bind (keeps_insertCanonical blocks)
  intro _
  apply Upholds.bind (Upholds.lift _)
  intro state
  apply Upholds.bind (keeps_insertAccounts _)
  intro _
  apply Upholds.bind (Upholds.lift _)
  intro supply
  exact Upholds.statement fun _ _ consistent run => consistent.updateMetadata run

/-- Replacing the derived state keeps the constraints. -/
theorem turns_replaceDerivedState (chain : Chain) (before : Tables) :
    Turns before (replaceDerivedState chain) fun _ tables => Rederived before tables chain :=
  (leads_replaceDerivedState chain before).keeping (keeps_replaceDerivedState chain)

end OurCoin
