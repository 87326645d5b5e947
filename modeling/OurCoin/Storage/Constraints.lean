import OurCoin.Model.Storage

/-!
# The constraints of the schema

`Tables.Consistent` lists what the schema demands of the tables: unique keys, the lengths
that the CHECK clauses fix, and references to stored blocks only. Every statement of the
program keeps it, because a statement that would violate it raises, so both SQLite checks
pass on whatever a run leaves (`Consistent.passes`).
-/

set_option autoImplicit false

namespace OurCoin

open Raising

namespace Tables

/-- The constraints of the schema. -/
structure Consistent (tables : Tables) : Prop where
  order_nodup : (tables.blocks.map BlockRow.acceptanceOrder).Nodup
  order_le : ∀ row ∈ tables.blocks, row.acceptanceOrder ≤ tables.sequence
  hash_nodup : (tables.blocks.map BlockRow.blockHash).Nodup
  blocks_checked : ∀ row ∈ tables.blocks, row.blockHash.length = 32 ∧ row.height.length = 8 ∧
    row.cumulativeWork.length = 40 ∧ row.issuedSupplyAtoms.length = 8
  parents_stored : ∀ row ∈ tables.blocks, ∀ parent ∈ row.parentHash, tables.hasBlock parent
  position_nodup :
    (tables.blockTransactions.map fun row => (row.blockHash, row.position)).Nodup
  bodies_checked : ∀ row ∈ tables.blockTransactions, row.txid.length = 32
  bodies_stored : ∀ row ∈ tables.blockTransactions, tables.hasBlock row.blockHash
  height_nodup : (tables.canonicalChain.map CanonicalRow.height).Nodup
  canonical_nodup : (tables.canonicalChain.map CanonicalRow.blockHash).Nodup
  canonical_checked : ∀ row ∈ tables.canonicalChain, row.height.length = 8
  canonical_stored : ∀ row ∈ tables.canonicalChain, tables.hasBlock row.blockHash
  address_nodup : (tables.accounts.map AccountRow.address).Nodup
  accounts_checked : ∀ row ∈ tables.accounts, row.balanceAtoms.length = 8 ∧ row.nonce.length = 8
  confirmed_nodup : (tables.confirmedTransactions.map ConfirmedRow.txid).Nodup
  confirmed_checked : ∀ row ∈ tables.confirmedTransactions, row.txid.length = 32
  confirmed_stored : ∀ row ∈ tables.confirmedTransactions, tables.hasBlock row.blockHash
  metadata_one : tables.chainMetadata.length ≤ 1
  metadata_checked : ∀ row ∈ tables.chainMetadata, row.genesisHash.length = 32 ∧
    row.issuedSupplyAtoms.length = 8
  tip_stored : ∀ row ∈ tables.chainMetadata, tables.hasBlock row.canonicalTipHash

/-- A list with one more element has no duplicates when the element is new. -/
theorem nodup_map_concat {α β : Type} {f : α → β} {xs : List α} {x : α}
    (nodup : (xs.map f).Nodup) (new : f x ∉ xs.map f) : ((xs ++ [x]).map f).Nodup := by
  rw [List.map_append, List.map_singleton]
  exact List.Nodup.append nodup (List.nodup_singleton _) (by simpa using new)

/-- What held of every element and holds of a new one holds of every element. -/
theorem forall_mem_concat {α : Type} {holds : α → Prop} {xs : List α} {x : α}
    (old : ∀ y ∈ xs, holds y) (new : holds x) : ∀ y ∈ xs ++ [x], holds y := by
  intro y member
  rcases List.mem_append.mp member with inFront | isLast
  · exact old y inFront
  · exact List.mem_singleton.mp isLast ▸ new

variable {tables tables' : Tables}

namespace Consistent

theorem empty : Tables.empty.Consistent := by
  constructor <;> simp [Tables.empty]

/-- Both checks of SQLite pass. -/
theorem passes (consistent : tables.Consistent) :
    tables.passesIntegrityCheck ∧ tables.passesForeignKeyCheck :=
  ⟨⟨consistent.order_nodup, consistent.hash_nodup, consistent.blocks_checked,
    consistent.position_nodup, consistent.bodies_checked, consistent.height_nodup,
    consistent.canonical_nodup, consistent.canonical_checked, consistent.address_nodup,
    consistent.accounts_checked, consistent.confirmed_nodup, consistent.confirmed_checked,
    consistent.metadata_one, consistent.metadata_checked⟩,
  ⟨consistent.parents_stored, consistent.bodies_stored, consistent.canonical_stored,
    consistent.confirmed_stored, consistent.tip_stored⟩⟩

theorem insertBlockRow (consistent : tables.Consistent) {row : BlockRow}
    (run : Tables.insertBlockRow row tables = .ok ((), tables')) : tables'.Consistent := by
  simp only [Tables.insertBlockRow, bind_eq_ok, raiseIf_eq_ok, exists_const, pure_eq_ok,
    Prod.mk.injEq, true_and, not_not] at run
  obtain ⟨checked, fresh, parentStored, rfl⟩ := run
  have grows : ∀ {hash : Bytes}, tables.hasBlock hash → hash ∈ (tables.blocks ++
      [{ row with acceptanceOrder := tables.sequence + 1 }]).map BlockRow.blockHash := by
    intro hash stored
    rw [List.map_append]
    exact List.mem_append_left _ stored
  have parents : ∀ other ∈ tables.blocks ++ [{ row with acceptanceOrder := tables.sequence + 1 }],
      ∀ parent ∈ other.parentHash, parent ∈ (tables.blocks ++
        [{ row with acceptanceOrder := tables.sequence + 1 }]).map BlockRow.blockHash := by
    apply forall_mem_concat
    · intro other member parent named
      exact grows (consistent.parents_stored other member parent named)
    · intro parent named
      by_cases stored : tables.hasBlock parent
      · exact grows stored
      · have isSelf : parent = row.blockHash := by
          by_contra other
          exact parentStored ⟨parent, named, stored, other⟩
        rw [isSelf]
        simp
  have newOrder : ∀ order ∈ tables.blocks.map BlockRow.acceptanceOrder,
      order ≤ tables.sequence := by
    intro order member
    obtain ⟨other, otherMem, rfl⟩ := List.mem_map.mp member
    exact consistent.order_le other otherMem
  exact { consistent with
    order_nodup := nodup_map_concat consistent.order_nodup fun member => by
      have small := newOrder _ member
      dsimp only at small
      omega
    order_le := forall_mem_concat
      (fun other member => (consistent.order_le other member).trans (Int.le.intro 1 rfl)) le_rfl
    hash_nodup := nodup_map_concat consistent.hash_nodup fresh
    blocks_checked := forall_mem_concat consistent.blocks_checked checked
    parents_stored := parents
    bodies_stored := fun other member => grows (consistent.bodies_stored other member)
    canonical_stored := fun other member => grows (consistent.canonical_stored other member)
    confirmed_stored := fun other member => grows (consistent.confirmed_stored other member)
    tip_stored := fun other member => grows (consistent.tip_stored other member) }

theorem insertTransactionRow (consistent : tables.Consistent) {row : TransactionRow}
    (run : Tables.insertTransactionRow row tables = .ok ((), tables')) : tables'.Consistent := by
  simp only [Tables.insertTransactionRow, bind_eq_ok, raiseIf_eq_ok, exists_const, pure_eq_ok,
    Prod.mk.injEq, true_and, not_not] at run
  obtain ⟨checked, fresh, stored, rfl⟩ := run
  exact { consistent with
    position_nodup := nodup_map_concat consistent.position_nodup fresh
    bodies_checked := forall_mem_concat consistent.bodies_checked checked
    bodies_stored := forall_mem_concat consistent.bodies_stored stored }

theorem insertCanonicalRow (consistent : tables.Consistent) {row : CanonicalRow}
    (run : Tables.insertCanonicalRow row tables = .ok ((), tables')) : tables'.Consistent := by
  simp only [Tables.insertCanonicalRow, bind_eq_ok, raiseIf_eq_ok, exists_const, pure_eq_ok,
    Prod.mk.injEq, true_and, not_not] at run
  obtain ⟨checked, newHeight, newHash, stored, rfl⟩ := run
  exact { consistent with
    height_nodup := nodup_map_concat consistent.height_nodup newHeight
    canonical_nodup := nodup_map_concat consistent.canonical_nodup newHash
    canonical_checked := forall_mem_concat consistent.canonical_checked checked
    canonical_stored := forall_mem_concat consistent.canonical_stored stored }

theorem insertConfirmedRow (consistent : tables.Consistent) {row : ConfirmedRow}
    (run : Tables.insertConfirmedRow row tables = .ok ((), tables')) : tables'.Consistent := by
  simp only [Tables.insertConfirmedRow, bind_eq_ok, raiseIf_eq_ok, exists_const, pure_eq_ok,
    Prod.mk.injEq, true_and, not_not] at run
  obtain ⟨checked, fresh, stored, rfl⟩ := run
  exact { consistent with
    confirmed_nodup := nodup_map_concat consistent.confirmed_nodup fresh
    confirmed_checked := forall_mem_concat consistent.confirmed_checked checked
    confirmed_stored := forall_mem_concat consistent.confirmed_stored stored }

theorem insertAccountRow (consistent : tables.Consistent) {row : AccountRow}
    (run : Tables.insertAccountRow row tables = .ok ((), tables')) : tables'.Consistent := by
  simp only [Tables.insertAccountRow, bind_eq_ok, raiseIf_eq_ok, exists_const, pure_eq_ok,
    Prod.mk.injEq, true_and, not_not] at run
  obtain ⟨checked, fresh, rfl⟩ := run
  exact { consistent with
    address_nodup := nodup_map_concat consistent.address_nodup fresh
    accounts_checked := forall_mem_concat consistent.accounts_checked checked }

theorem insertMetadataRow (consistent : tables.Consistent) {row : MetadataRow}
    (run : Tables.insertMetadataRow row tables = .ok ((), tables')) : tables'.Consistent := by
  simp only [Tables.insertMetadataRow, bind_eq_ok, raiseIf_eq_ok, exists_const, pure_eq_ok,
    Prod.mk.injEq, true_and, not_not] at run
  obtain ⟨checked, -, stored, rfl⟩ := run
  exact { consistent with
    metadata_one := le_rfl
    metadata_checked := fun other member => List.mem_singleton.mp member ▸ checked
    tip_stored := fun other member => List.mem_singleton.mp member ▸ stored }

theorem updateMetadata (consistent : tables.Consistent) {tip supply : Bytes}
    (run : Tables.updateMetadata tip supply tables = .ok ((), tables')) : tables'.Consistent := by
  simp only [Tables.updateMetadata, bind_eq_ok, raiseIf_eq_ok, exists_const, pure_eq_ok,
    Prod.mk.injEq, true_and, not_and, not_not] at run
  obtain ⟨checked, stored, rfl⟩ := run
  have nonempty : ∀ {row : MetadataRow}, row ∈ tables.chainMetadata → tables.chainMetadata ≠ [] :=
    fun member => List.ne_nil_of_mem member
  exact { consistent with
    metadata_one := by
      rw [List.length_map]
      exact consistent.metadata_one
    metadata_checked := by
      intro other member
      obtain ⟨row, rowMem, rfl⟩ := List.mem_map.mp member
      exact ⟨(consistent.metadata_checked row rowMem).1, checked (nonempty rowMem)⟩
    tip_stored := by
      intro other member
      obtain ⟨row, rowMem, rfl⟩ := List.mem_map.mp member
      exact stored (nonempty rowMem) }

theorem deleteCanonicalChain (consistent : tables.Consistent)
    (run : Tables.deleteCanonicalChain tables = .ok ((), tables')) : tables'.Consistent := by
  cases run
  exact { consistent with
    height_nodup := List.nodup_nil
    canonical_nodup := List.nodup_nil
    canonical_checked := fun row member => by cases member
    canonical_stored := fun row member => by cases member }

theorem deleteAccounts (consistent : tables.Consistent)
    (run : Tables.deleteAccounts tables = .ok ((), tables')) : tables'.Consistent := by
  cases run
  exact { consistent with
    address_nodup := List.nodup_nil
    accounts_checked := fun row member => by cases member }

theorem deleteConfirmedTransactions (consistent : tables.Consistent)
    (run : Tables.deleteConfirmedTransactions tables = .ok ((), tables')) : tables'.Consistent := by
  cases run
  exact { consistent with
    confirmed_nodup := List.nodup_nil
    confirmed_checked := fun row member => by cases member
    confirmed_stored := fun row member => by cases member }

end Consistent

end Tables

end OurCoin
